import TraceDB.Server.Jobs
import TraceDB.Server.Request

/-!
# The two names of the default shard

`job_runtime` keeps one runtime for each shard key, and a runtime keeps its catalog in memory.  The
default shard has two keys, `(local, main)` and `(db_local, db_local:main)`, which share the
directory `root/jobs`.  So a server can have two catalogs over the same files.

* `JobServer` : the files, and the catalogs of the runtimes that are open.
* `JobServer.Fresh`, `JobServer.Openable` : a runtime that is open holds the catalog that is in the
  files; one that is not open finds no job there that has an attempt.
* `OneCatalog` : the runs of a server that keeps one catalog.
* `one_catalog_for_fresh` : as long as requests meet such runtimes, every run of the server is one
  of those.
* `two_catalogs` : a job that was enqueued through one name is not seen through the other, and is
  leased through both.

A step is a whole request: requests through one key are serialized by the lock of its runtime.
-/

namespace TraceDB

namespace JobRuntime

/-- The call of the catalog that a call of the runtime makes. -/
def Call.toJobCall : Call → JobCall
  | .enqueue kind target idempotencyKey => .enqueue kind target idempotencyKey
  | .lease workerId kind nowMs leaseMs => .leaseNextAt workerId kind nowMs leaseMs
  | .heartbeat jobId leaseToken nowMs leaseMs => .heartbeat jobId leaseToken nowMs leaseMs
  | .complete jobId leaseToken => .complete jobId (some leaseToken)
  | .fail jobId leaseToken error permanent nowMs => .fail jobId leaseToken error permanent nowMs

variable (F : JobFormat) (runtime : JobRuntime)

/-- A call: what it returns, and the runtime afterwards. -/
def perform : Call → JobReturn × JobRuntime
  | .enqueue kind target idempotencyKey => runtime.enqueue F kind target idempotencyKey
  | .lease workerId kind nowMs leaseMs => runtime.lease F workerId kind nowMs leaseMs
  | .heartbeat jobId leaseToken nowMs leaseMs => runtime.heartbeat F jobId leaseToken nowMs leaseMs
  | .complete jobId leaseToken => runtime.complete F jobId leaseToken
  | .fail jobId leaseToken error permanent nowMs =>
    runtime.fail F jobId leaseToken error permanent nowMs

/-- `ServerJobRuntime::jobs`. -/
def jobs : List TraceJob := runtime.catalog.jobs.toList.map (·.2)

theorem perform_snd (call : Call) : (runtime.perform F call).2 = runtime.after F call := by
  cases call <;> rfl

/-- A call of the runtime is a call of its catalog. -/
theorem jobStep_perform (call : Call) :
    JobStep runtime.catalog (call.toJobCall, (runtime.perform F call).1)
      (runtime.perform F call).2.catalog := by
  cases call with
  | enqueue kind target key => rfl
  | lease workerId kind nowMs leaseMs =>
    simp only [JobStep, Call.toJobCall, JobCatalog.call, perform, lease]
    rcases runtime.catalog.leaseNextAt_cases workerId kind nowMs leaseMs with
      hnone | ⟨key, job, -, -, -, hsome⟩
    · rw [hnone]
    · rw [hsome]
      rfl
  | heartbeat jobId leaseToken nowMs leaseMs =>
    simp only [JobStep, Call.toJobCall, JobCatalog.call, perform, heartbeat]
    cases runtime.catalog.heartbeat jobId leaseToken nowMs leaseMs <;> rfl
  | complete jobId leaseToken =>
    simp only [JobStep, Call.toJobCall, JobCatalog.call, perform, complete]
    cases runtime.catalog.complete jobId (some leaseToken) <;> rfl
  | fail jobId leaseToken error permanent nowMs =>
    simp only [JobStep, Call.toJobCall, JobCatalog.call, perform, fail]
    cases runtime.catalog.fail jobId leaseToken error permanent nowMs <;> rfl

end JobRuntime

/-! ### The server -/

variable (F : JobFormat)

/-- The files in `root/jobs`, and the catalogs of the runtimes that are open. -/
structure JobServer where
  files : JobFiles
  jobCatalogs : ShardKey → Option JobCatalog

/-- The requests about jobs. -/
inductive JobRequest where
  | jobs
  | call (call : JobRuntime.Call)

/-- The answers. -/
inductive JobAnswer where
  | jobs (jobs : List TraceJob)
  | returned (out : JobReturn)
  /-- The runtime cannot be opened. -/
  | failed (e : String)
  deriving DecidableEq

namespace JobServer

variable (s : JobServer)

/-- A server on a new directory. -/
def empty : JobServer := ⟨.empty, fun _ => none⟩

/-- `EngineHandle::job_runtime`, through a name of the default shard. -/
def jobRuntime (key : ShardKey) : Except String JobRuntime :=
  match s.jobCatalogs key with
  | some catalog => .ok ⟨catalog, s.files⟩
  | none => JobRuntime.open F s.files

/-- The server with a runtime as it is after a request. -/
def keep (key : ShardKey) (runtime : JobRuntime) : JobServer :=
  ⟨runtime.files, Function.update s.jobCatalogs key (some runtime.catalog)⟩

@[simp] theorem keep_jobCatalogs (key : ShardKey) (runtime : JobRuntime) :
    (s.keep key runtime).jobCatalogs key = some runtime.catalog :=
  Function.update_self ..

/-- A request through a name of the default shard. -/
def request (key : ShardKey) (request : JobRequest) : JobAnswer × JobServer :=
  match s.jobRuntime F key with
  | .error e => (.failed e, s)
  | .ok runtime =>
    match request with
    | .jobs => (.jobs runtime.jobs, s.keep key runtime)
    | .call call => (.returned (runtime.perform F call).1, s.keep key (runtime.perform F call).2)

end JobServer

/-- A request and its answer, or a restart. -/
inductive JobServerLabel where
  | request (key : ShardKey) (request : JobRequest) (answer : JobAnswer)
  | restart

/-- One step of the server. -/
inductive JobServerStep (s : JobServer) : JobServerLabel → JobServer → Prop
  | request {key : ShardKey} {request : JobRequest} : key.isDefault = true →
      JobServerStep s (.request key request (s.request F key request).1) (s.request F key request).2
  | restart : JobServerStep s .restart { s with jobCatalogs := fun _ => none }

/-- A runtime that is open holds the catalog that is in the files. -/
def JobServer.Fresh (s : JobServer) (key : ShardKey) : Prop :=
  ∀ catalog, s.jobCatalogs key = some catalog →
    s.files.checkpoint = some (F.checkpointToVecPretty catalog)

/-- A runtime that is not open can be: no job in the files has an attempt, which opening would count
once more. -/
def JobServer.Openable (s : JobServer) (key : ShardKey) : Prop :=
  s.jobCatalogs key = none → ∀ catalog,
    s.files.checkpoint = some (F.checkpointToVecPretty catalog) →
      ∀ (k : String) (job : TraceJob), catalog.jobs[k]? = some job → job.attempts = 0

/-- A request that meets a fresh runtime, or one that can be opened. -/
def MeetsFresh (s : JobServer) : JobServerLabel → Prop
  | .request key _ _ => s.Fresh F key ∧ s.Openable F key
  | .restart => True

/-- What the requests have said about jobs, through either name. -/
def jobLabels (trace : List JobServerLabel) : List JobLabel :=
  trace.filterMap fun
    | .request _ (.call call) (.returned out) => some (call.toJobCall, out)
    | _ => none

/-- The jobs that were enqueued, through either name. -/
def enqueuedJobs (trace : List JobServerLabel) : List TraceJob :=
  trace.filterMap fun
    | .request _ (.call (.enqueue _ _ _)) (.returned (.ok (some job))) => some job
    | _ => none

/-! ### One catalog -/

/-- A request on a catalog that is kept in one place. -/
def JobCatalog.serve (catalog : JobCatalog) : JobRequest → JobAnswer × JobCatalog
  | .jobs => (.jobs (catalog.jobs.toList.map (·.2)), catalog)
  | .call call => (.returned (catalog.call call.toJobCall).1, (catalog.call call.toJobCall).2)

/-- One step of a server with one catalog, which a restart leaves as it is. -/
inductive CatalogStep (catalog : JobCatalog) : JobServerLabel → JobCatalog → Prop
  | request (key : ShardKey) (request : JobRequest) :
      CatalogStep catalog (.request key request (catalog.serve request).1) (catalog.serve request).2
  | restart : CatalogStep catalog .restart catalog

/-- The runs of a server with one catalog. -/
def OneCatalog (trace : List JobServerLabel) (catalog : JobCatalog) : Prop :=
  Runs CatalogStep (fun _ _ => True) .empty trace catalog

/-! ### The files -/

variable {F}

namespace JobRuntime

variable {runtime : JobRuntime}

/-- A request on a runtime is the request on its catalog. -/
theorem serve_catalog (runtime : JobRuntime) (call : Call) :
    runtime.catalog.serve (.call call) =
      (.returned (runtime.perform F call).1, (runtime.perform F call).2.catalog) := by
  have hstep := runtime.jobStep_perform F call
  simp only [JobStep] at hstep
  rw [JobCatalog.serve, hstep]

/-- No call takes a job away. -/
theorem Logged.extends_after {events : List JobEvent} (h : runtime.Logged F events) (call : Call) :
    runtime.catalog.Extends (runtime.after F call).catalog := by
  rcases after_cases (JobCatalog.inv_of_runs h.runs) call with hsame | ⟨event, catalog, hemits, heq⟩
  · rw [hsame]
    exact .refl _
  · rw [heq]
    exact .of_emits hemits (.refl _)

end JobRuntime

/-- The job that an enqueue returns is in the catalog. -/
theorem JobCatalog.Inv.getElem?_enqueue {catalog : JobCatalog} (h : catalog.Inv) (kind : JobKind)
    (target key : String) :
    (catalog.enqueue kind target key).1.jobs[(catalog.enqueue kind target key).2.idempotencyKey]? =
      some (catalog.enqueue kind target key).2 := by
  simp only [enqueue, orInsert, TraceJob.new]
  cases hfound : catalog.jobs[key]? with
  | some existing =>
    rw [(h key existing hfound).1]
    exact hfound
  | none => exact getElem?_set_self ..

/-! ### The invariant -/

/-- The files of a server hold a catalog, which is that of a server with one catalog after the same
requests and answers. -/
structure JobServer.Holds (F : JobFormat) (trace : List JobServerLabel) (files : JobFiles)
    (catalog : JobCatalog) : Prop where
  stored : (files = .empty ∧ catalog = .empty) ∨ ∃ events,
    (JobRuntime.mk catalog files).Logged F events
  one : OneCatalog trace catalog
  leases : JobCatalog.Shows (jobLabels trace) catalog
  jobs : ∀ job ∈ enqueuedJobs trace, ∃ job', catalog.jobs[job.idempotencyKey]? = some job' ∧
    job.SameJob job'

namespace JobServer

variable {s s' : JobServer} {trace : List JobServerLabel} {catalog : JobCatalog} {key : ShardKey}

/-- The checkpoint is read back, so it is that of one catalog. -/
theorem eq_of_checkpoint {checkpoint : Option String} {cached : JobCatalog}
    (h : checkpoint = some (F.checkpointToVecPretty cached))
    (h' : checkpoint = some (F.checkpointToVecPretty catalog)) : cached = catalog := by
  have htext := Option.some.inj (h.symm.trans h')
  have hread := F.checkpointFromStr_checkpointToVecPretty cached
  rw [htext, F.checkpointFromStr_checkpointToVecPretty] at hread
  exact (Except.ok.inj hread).symm

/-- **What a request meets**: a runtime with the one catalog. -/
theorem Holds.jobRuntime (h : Holds F trace s.files catalog) (hfresh : s.Fresh F key)
    (hopenable : s.Openable F key) :
    ∃ files events, s.jobRuntime F key = .ok ⟨catalog, files⟩ ∧
      (JobRuntime.mk catalog files).Logged F events := by
  unfold JobServer.jobRuntime
  cases hcached : s.jobCatalogs key with
  | some cached =>
    have hcheckpoint := hfresh cached hcached
    rcases h.stored with ⟨hempty, -⟩ | ⟨events, hlogged⟩
    · rw [hempty] at hcheckpoint
      cases hcheckpoint
    · obtain rfl := eq_of_checkpoint hcheckpoint hlogged.checkpoint
      exact ⟨_, events, rfl, hlogged⟩
  | none =>
    rcases h.stored with ⟨hempty, rfl⟩ | ⟨events, hlogged⟩
    · rw [hempty]
      exact ⟨_, [], JobRuntime.open_empty F, JobRuntime.logged_initial F⟩
    · exact ⟨_, events, hlogged.open_self (hopenable hcached catalog hlogged.checkpoint), hlogged⟩

/-- When no job has an attempt, every runtime can be opened. -/
theorem Holds.openable (h : Holds F trace s.files catalog)
    (hzero : ∀ (k : String) (job : TraceJob), catalog.jobs[k]? = some job → job.attempts = 0) :
    s.Openable F key := by
  intro _ found hfound
  rcases h.stored with ⟨hempty, -⟩ | ⟨events, hlogged⟩
  · rw [hempty] at hfound
    cases hfound
  · obtain rfl := eq_of_checkpoint hfound hlogged.checkpoint
    exact hzero

/-- A new runtime can be opened on what the files hold, with the one catalog, just when no job has
an attempt. -/
theorem Holds.open_iff (h : Holds F trace s.files catalog) :
    (∃ opened, JobRuntime.open F s.files = .ok opened ∧ opened.catalog = catalog) ↔
      ∀ (k : String) (job : TraceJob), catalog.jobs[k]? = some job → job.attempts = 0 := by
  rcases h.stored with ⟨hempty, rfl⟩ | ⟨events, hlogged⟩
  · rw [hempty]
    refine ⟨fun _ k job hjob => ?_, fun _ => ⟨_, JobRuntime.open_empty F, rfl⟩⟩
    simp [JobCatalog.empty] at hjob
  · exact hlogged.open_catalog_iff

theorem jobLabels_snoc (trace : List JobServerLabel) (label : JobServerLabel) :
    jobLabels (trace ++ [label]) = jobLabels trace ++ jobLabels [label] := List.filterMap_append

theorem enqueuedJobs_snoc (trace : List JobServerLabel) (label : JobServerLabel) :
    enqueuedJobs (trace ++ [label]) = enqueuedJobs trace ++ enqueuedJobs [label] :=
  List.filterMap_append

theorem holds_empty (F : JobFormat) : Holds F [] empty.files .empty :=
  ⟨.inl ⟨rfl, rfl⟩, .start, .start, fun _ hmem => by cases hmem⟩

/-- A step that says nothing about jobs. -/
theorem Holds.quiet {files : JobFiles} (h : Holds F trace files catalog) {label : JobServerLabel}
    (hlabels : jobLabels [label] = []) (hjobs : enqueuedJobs [label] = []) {files' : JobFiles}
    (hstored : (files' = .empty ∧ catalog = .empty) ∨
      ∃ events, (JobRuntime.mk catalog files').Logged F events)
    (hone : CatalogStep catalog label catalog) : Holds F (trace ++ [label]) files' catalog := by
  refine ⟨hstored, h.one.step trivial hone, ?_, ?_⟩
  · rw [jobLabels_snoc, hlabels, List.append_nil]
    exact h.leases
  · rw [enqueuedJobs_snoc, hjobs, List.append_nil]
    exact h.jobs

/-- A call through a runtime with the one catalog. -/
theorem Holds.called {runtime : JobRuntime} {files : JobFiles} {events : List JobEvent}
    (h : Holds F trace files runtime.catalog) (hlogged : runtime.Logged F events)
    (call : JobRuntime.Call) :
    Holds F (trace ++ [.request key (.call call) (.returned (runtime.perform F call).1)])
      (runtime.perform F call).2.files (runtime.perform F call).2.catalog := by
  have hinv := JobCatalog.inv_of_runs hlogged.runs
  have hperform := runtime.perform_snd F call
  have hone : CatalogStep runtime.catalog _ _ := .request key (.call call)
  rw [runtime.serve_catalog (F := F)] at hone
  obtain ⟨events', hafter⟩ := hlogged.after call
  refine ⟨.inr ⟨events', hperform.symm ▸ hafter⟩, h.one.step trivial hone, ?_, ?_⟩
  · rw [jobLabels_snoc]
    exact h.leases.step hinv (runtime.jobStep_perform F call)
  · rw [enqueuedJobs_snoc]
    intro job hjob
    rcases List.mem_append.1 hjob with hearlier | hnew
    · obtain ⟨found, hfound, hsame⟩ := h.jobs job hearlier
      obtain ⟨found', hfound', hsame'⟩ := hlogged.extends_after call _ found hfound
      exact ⟨found', hperform.symm ▸ hfound', hsame.trans hsame'⟩
    · cases call with
      | enqueue kind target idempotencyKey =>
        obtain rfl := List.mem_singleton.1 hnew
        exact ⟨_, hinv.getElem?_enqueue kind target idempotencyKey, .refl _⟩
      | lease | heartbeat | complete | fail => cases hnew

/-- **A request is answered as by one catalog.** -/
theorem Holds.request (h : Holds F trace s.files catalog) (hfresh : s.Fresh F key)
    (hopenable : s.Openable F key) (request : JobRequest) :
    (s.request F key request).1 = (catalog.serve request).1 ∧
      Holds F (trace ++ [.request key request (s.request F key request).1])
        (s.request F key request).2.files (catalog.serve request).2 := by
  obtain ⟨files, events, hruntime, hlogged⟩ := h.jobRuntime hfresh hopenable
  cases request with
  | jobs =>
    simp only [JobServer.request, hruntime]
    exact ⟨rfl, h.quiet rfl rfl (.inr ⟨events, hlogged⟩) (.request key .jobs)⟩
  | call call =>
    rw [(JobRuntime.mk catalog files).serve_catalog (F := F)]
    simp only [JobServer.request, hruntime]
    exact ⟨trivial, @Holds.called F trace key ⟨catalog, files⟩ s.files events h hlogged call⟩

/-- **Every step keeps it**, as long as requests meet fresh runtimes. -/
theorem Holds.step (h : Holds F trace s.files catalog) {label : JobServerLabel}
    (hfresh : MeetsFresh F s label) (hstep : JobServerStep F s label s') :
    ∃ catalog', Holds F (trace ++ [label]) s'.files catalog' := by
  cases hstep with
  | restart => exact ⟨catalog, h.quiet rfl rfl h.stored .restart⟩
  | @request key request hdefault => exact ⟨_, (h.request hfresh.1 hfresh.2 request).2⟩

/-- A request leaves the runtime it meets open and fresh. -/
theorem Holds.meets_request (h : Holds F trace s.files catalog) (hfresh : s.Fresh F key)
    (hopenable : s.Openable F key) (request : JobRequest) :
    (s.request F key request).2.Fresh F key ∧ (s.request F key request).2.Openable F key := by
  obtain ⟨files, events, hruntime, hlogged⟩ := h.jobRuntime hfresh hopenable
  cases request with
  | jobs =>
    simp only [JobServer.request, hruntime]
    refine ⟨fun cached hcached => ?_, fun hnone => ?_⟩
    · rw [keep_jobCatalogs] at hcached
      obtain rfl := Option.some.inj hcached
      exact hlogged.checkpoint
    · rw [keep_jobCatalogs] at hnone
      cases hnone
  | call call =>
    simp only [JobServer.request, hruntime, JobRuntime.perform_snd]
    refine ⟨fun cached hcached => ?_, fun hnone => ?_⟩
    · rw [keep_jobCatalogs] at hcached
      obtain rfl := Option.some.inj hcached
      obtain ⟨events', hafter⟩ := hlogged.after call
      exact hafter.checkpoint
    · rw [keep_jobCatalogs] at hnone
      cases hnone

theorem exists_holds {trace : List JobServerLabel}
    (h : Runs (JobServerStep F) (MeetsFresh F) empty trace s) :
    ∃ catalog, Holds F trace s.files catalog :=
  @Runs.invariant _ _ _ _ _ (fun trace s => ∃ catalog, Holds F trace s.files catalog)
    ⟨_, holds_empty F⟩ (fun _ _ _ _ hfresh hstep ⟨_, hholds⟩ => hholds.step hfresh hstep) _ _ h

/-- Nothing is leased twice by a request that meets a fresh runtime. -/
theorem Holds.lease_over (h : Holds F trace s.files catalog) (hfresh : s.Fresh F key)
    (hopenable : s.Openable F key) {workerId : String} {kind : JobKind} {nowMs leaseMs : ℕ}
    {job : TraceJob} (hrequest : (s.request F key (.call (.lease workerId kind nowMs leaseMs))).1 =
      .returned (.ok (some job))) {expiry : ℕ}
    (hexpiry : currentLease (jobLabels trace) job.jobId = some expiry) : expiry ≤ nowMs := by
  obtain ⟨files, events, hruntime, hlogged⟩ := h.jobRuntime hfresh hopenable
  simp only [JobServer.request, hruntime] at hrequest
  have hstep := (JobRuntime.mk catalog files).jobStep_perform F (.lease workerId kind nowMs leaseMs)
  rw [JobAnswer.returned.inj hrequest] at hstep
  exact h.leases.lease_over hstep hexpiry

end JobServer

/-- **One catalog, as long as requests meet fresh runtimes.**  In every run of the server from a new
directory, through both names of the default shard and with restarts, in which every request meets a
runtime that holds the catalog of the files, or one that is not open while no job in the files has
an attempt: all answers are those of a server with one catalog, which restarts leave as it is.  It
holds every job that was enqueued, through either name; the next request that meets such a runtime
is answered by it as well, and gets no lease on a job while another one lasts; and it is what the
files are opened with, just when no job has an attempt. -/
theorem one_catalog_for_fresh {s : JobServer} {trace : List JobServerLabel}
    (h : Runs (JobServerStep F) (MeetsFresh F) .empty trace s) :
    ∃ catalog, OneCatalog trace catalog ∧
      (∀ job ∈ enqueuedJobs trace, ∃ job', catalog.jobs[job.idempotencyKey]? = some job' ∧
        job.SameJob job') ∧
      (∀ key, s.Fresh F key → s.Openable F key →
        (∀ request, (s.request F key request).1 = (catalog.serve request).1) ∧
        ∀ workerId kind nowMs leaseMs job,
          (s.request F key (.call (.lease workerId kind nowMs leaseMs))).1 =
            .returned (.ok (some job)) →
          ∀ expiry, currentLease (jobLabels trace) job.jobId = some expiry → expiry ≤ nowMs) ∧
      ((∃ opened, JobRuntime.open F s.files = .ok opened ∧ opened.catalog = catalog) ↔
        ∀ (k : String) (job : TraceJob), catalog.jobs[k]? = some job → job.attempts = 0) := by
  obtain ⟨catalog, hholds⟩ := JobServer.exists_holds h
  refine ⟨catalog, hholds.one, hholds.jobs, fun key hfresh hopenable => ⟨?_, ?_⟩, hholds.open_iff⟩
  · exact fun request => (hholds.request hfresh hopenable request).1
  · exact fun _ _ _ _ _ hrequest _ hexpiry => hholds.lease_over hfresh hopenable hrequest hexpiry

/-! ### Both names -/

/-- The names of the default shard. -/
def localMain : ShardKey := ⟨"local", "main"⟩

@[inherit_doc localMain] def dbLocalMain : ShardKey := ⟨"db_local", "db_local:main"⟩

/-- A job is enqueued. -/
def enqueueNightly : JobRequest := .call (.enqueue .verifyDatabase "docs" "nightly")

/-- A worker leases a job for ten milliseconds. -/
def leaseNightly (workerId : String) : JobRequest := .call (.lease workerId .verifyDatabase 0 10)

/-- The job is enqueued through one name, and leased through the other. -/
def leasedServer (F : JobFormat) : JobServer :=
  ((JobServer.empty.request F localMain enqueueNightly).2.request F dbLocalMain
    (leaseNightly "a")).2

/-- A job that was enqueued has no attempt. -/
theorem attempts_enqueueNightly {k : String} {job : TraceJob}
    (h : (JobCatalog.empty.serve enqueueNightly).2.jobs[k]? = some job) : job.attempts = 0 := by
  have hset : (JobCatalog.empty.serve enqueueNightly).2 =
      JobCatalog.empty.set "nightly" (.new .verifyDatabase "docs" "nightly") := rfl
  rw [hset] at h
  rcases JobCatalog.getElem?_set_cases h with ⟨-, rfl⟩ | ⟨-, hold⟩
  · rfl
  · simp [JobCatalog.empty] at hold

theorem JobServer.runs_request {s : JobServer} {trace : List JobServerLabel}
    (h : Runs (JobServerStep F) (MeetsFresh F) empty trace s) {key : ShardKey}
    (hkey : key.isDefault = true) (request : JobRequest) (hfresh : s.Fresh F key)
    (hopenable : s.Openable F key) :
    Runs (JobServerStep F) (MeetsFresh F) empty
      (trace ++ [.request key request (s.request F key request).1]) (s.request F key request).2 :=
  h.step ⟨hfresh, hopenable⟩ (.request hkey)

theorem runs_leasedServer (F : JobFormat) :
    ∃ trace, Runs (JobServerStep F) (MeetsFresh F) .empty trace (leasedServer F) ∧
      TraceJob.new .verifyDatabase "docs" "nightly" ∈ enqueuedJobs trace ∧
      (leasedServer F).Fresh F dbLocalMain ∧ (leasedServer F).Openable F dbLocalMain := by
  have hempty : JobServer.empty.Fresh F localMain := fun _ hnone => by cases hnone
  have hopenable : JobServer.empty.Openable F localMain := fun _ _ hnone => by cases hnone
  have hfirst := ((JobServer.holds_empty F).request hempty hopenable enqueueNightly).2
  have hempty' : (JobServer.empty.request F localMain enqueueNightly).2.Fresh F dbLocalMain :=
    fun _ hnone => by cases hnone
  have hopenable' := @JobServer.Holds.openable F _ _ _ dbLocalMain hfirst
    fun _ _ => attempts_enqueueNightly
  have hruns := JobServer.runs_request .start rfl enqueueNightly hempty hopenable
  exact ⟨_, JobServer.runs_request hruns rfl (leaseNightly "a") hempty' hopenable',
    List.mem_singleton_self _, hfirst.meets_request hempty' hopenable' (leaseNightly "a")⟩

theorem one_catalog_for_fresh_other :
    ∃ catalog, (∃ trace, OneCatalog trace catalog) ∧
      ((leasedServer .reference).request .reference dbLocalMain .jobs).1 = (catalog.serve .jobs).1 ∧
      ∃ job, catalog.jobs["nightly"]? = some job ∧
        (TraceJob.new .verifyDatabase "docs" "nightly").SameJob job := by
  obtain ⟨trace, hruns, hjob, hfresh, hopenable⟩ := runs_leasedServer .reference
  obtain ⟨catalog, hone, hjobs, hnext, -⟩ := one_catalog_for_fresh hruns
  exact ⟨catalog, ⟨trace, hone⟩, (hnext _ hfresh hopenable).1 .jobs, hjobs _ hjob⟩

/-! ### Two catalogs -/

/-- The run of a list of requests. -/
def JobServer.serve (F : JobFormat) (s : JobServer) :
    List (ShardKey × JobRequest) → List JobServerLabel × JobServer
  | [] => ([], s)
  | (key, request) :: requests =>
    let (answer, s') := s.request F key request
    let (labels, last) := s'.serve F requests
    (.request key request answer :: labels, last)

theorem JobServer.runs_serve {start s : JobServer} {trace : List JobServerLabel}
    (h : Runs (JobServerStep F) (fun _ _ => True) start trace s)
    (requests : List (ShardKey × JobRequest)) (hkeys : ∀ r ∈ requests, r.1.isDefault = true) :
    Runs (JobServerStep F) (fun _ _ => True) start (trace ++ (s.serve F requests).1)
      (s.serve F requests).2 := by
  induction requests generalizing s trace with
  | nil =>
    rw [serve, List.append_nil]
    exact h
  | cons r requests ih =>
    obtain ⟨key, request⟩ := r
    have hkey : key.isDefault = true := hkeys _ List.mem_cons_self
    have hstep := @JobServerStep.request F s key request hkey
    have hnext := ih (h.step trivial hstep) fun r hr => hkeys r (List.mem_cons_of_mem _ hr)
    rw [List.append_assoc] at hnext
    exact hnext

/-- Both runtimes are open, and the job is enqueued through one name. -/
def oneSided : List (ShardKey × JobRequest) := [(dbLocalMain, .jobs), (localMain, enqueueNightly)]

/-- The job is enqueued through the other name too, and leased through the first. -/
def twoSided : List (ShardKey × JobRequest) :=
  oneSided ++ [(dbLocalMain, enqueueNightly), (localMain, leaseNightly "a")]

/-- **Two catalogs**: a job that is enqueued through one name is not seen through the other, and
when it is enqueued there too, it is leased through both at the same time. -/
theorem two_catalogs :
    (∃ trace s, Runs (JobServerStep .reference) (fun _ _ => True) .empty trace s ∧
      enqueuedJobs trace = [TraceJob.new .verifyDatabase "docs" "nightly"] ∧
      (s.request .reference dbLocalMain .jobs).1 = .jobs []) ∧
    ∃ trace s job, Runs (JobServerStep .reference) (fun _ _ => True) .empty trace s ∧
      (s.request .reference dbLocalMain (.call (.lease "b" .verifyDatabase 0 10))).1 =
        .returned (.ok (some job)) ∧
      currentLease (jobLabels trace) job.jobId = some 10 := by
  refine ⟨⟨_, _, JobServer.runs_serve .start oneSided (by decide), by decide +kernel,
    by decide +kernel⟩, _, _, (TraceJob.new .verifyDatabase "docs" "nightly").leaseAt "b" 0 10,
    JobServer.runs_serve .start twoSided (by decide), by decide +kernel, by decide +kernel⟩

end TraceDB
