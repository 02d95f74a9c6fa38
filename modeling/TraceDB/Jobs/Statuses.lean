import Mathlib.Data.List.Induction
import TraceDB.Jobs.Leases

/-!
# The life of a job

A job is leased, fails and is leased again, until it succeeds, fails for good, or has used up its
attempts.  The catalog keeps to this only as far as its workers do: a report on a job is accepted
whatever the status of the job is, and a lease that has run out is given on without a look at the
attempts.

* `JobCatalog.Effect` : what a call does, one constructor for each of its ways to end.
* `terminal_final_iff` : the statuses of finished jobs stay as they are just when no report changes
  one; `late_failure_reopens` is a run in which a late report does.
* `attempts_bounded_iff` : no job is leased more than `max_attempts` times just when no last lease
  runs out and is given on; `expired_lease_overruns` is a run in which one is.
-/

namespace TraceDB

/-- The statuses of jobs that are over. -/
def JobStatus.isTerminal : JobStatus → Bool
  | .succeeded | .failedPermanent | .deadLettered => true
  | _ => false

/-! ### What a call does -/

namespace JobCatalog

/-- The job that a lease would take: the first of its kind that can be leased. -/
def nextLeasable (catalog : JobCatalog) (kind : JobKind) (nowMs : ℕ) : Option (String × TraceJob) :=
  catalog.jobs.toList.find? fun e => e.2.kind = kind && jobIsLeasable e.2 nowMs

variable {catalog catalog' : JobCatalog}

/-- The ways a call can end: what it returns, and the catalog afterwards. -/
inductive Effect (catalog : JobCatalog) : JobCall → JobReturn → JobCatalog → Prop
  | refused (call : JobCall) (e : String) : Effect catalog call (.error e) catalog
  | known {kind : JobKind} {target key : String} {existing : TraceJob} :
      catalog.jobs[key]? = some existing →
      Effect catalog (.enqueue kind target key) (.ok (some existing)) catalog
  | new {kind : JobKind} {target key : String} : catalog.jobs[key]? = none →
      Effect catalog (.enqueue kind target key) (.ok (some (.new kind target key)))
        (catalog.set key (.new kind target key))
  | idle (workerId : String) (kind : JobKind) (nowMs leaseMs : ℕ) :
      Effect catalog (.leaseNextAt workerId kind nowMs leaseMs) (.ok none) catalog
  | leased {workerId : String} {kind : JobKind} {nowMs leaseMs : ℕ} {key : String}
    {job : TraceJob} :
      catalog.nextLeasable kind nowMs = some (key, job) →
      Effect catalog (.leaseNextAt workerId kind nowMs leaseMs)
        (.ok (some (job.leaseAt workerId nowMs leaseMs)))
        (catalog.set key (job.leaseAt workerId nowMs leaseMs))
  | extended {jobId leaseToken : String} {nowMs leaseMs : ℕ} {key : String} {job : TraceJob} :
      catalog.jobMutForToken jobId (some leaseToken) = .ok (key, job) →
      Effect catalog (.heartbeat jobId leaseToken nowMs leaseMs)
        (.ok (some (job.extended nowMs leaseMs))) (catalog.set key (job.extended nowMs leaseMs))
  | completed {jobId : String} {leaseToken : Option String} {key : String} {job : TraceJob} :
      catalog.jobMutForToken jobId leaseToken = .ok (key, job) →
      Effect catalog (.complete jobId leaseToken) (.ok (some job.completed))
        (catalog.set key job.completed)
  | failed {jobId : String} {leaseToken : Option String} {error : String} {permanent : Bool}
      {nextAttemptAfterMs : ℕ} {key : String} {job : TraceJob} :
      catalog.jobMutForToken jobId leaseToken = .ok (key, job) →
      Effect catalog (.fail jobId leaseToken error permanent nextAttemptAfterMs)
        (.ok (some (job.failed error permanent nextAttemptAfterMs)))
        (catalog.set key (job.failed error permanent nextAttemptAfterMs))

/-- An operation that asks for a token fails, or changes the job it finds. -/
theorem attempt_changing_eq (jobId : String) (leaseToken : Option String)
    (change : TraceJob → TraceJob) :
    (∃ e, catalog.attempt (catalog.changing jobId leaseToken change) = (.error e, catalog)) ∨
      ∃ key job, catalog.jobMutForToken jobId leaseToken = .ok (key, job) ∧
        catalog.attempt (catalog.changing jobId leaseToken change) =
          (.ok (some (change job)), catalog.set key (change job)) := by
  cases hfound : catalog.jobMutForToken jobId leaseToken with
  | error e => exact .inl ⟨e, by rw [changing, hfound]; rfl⟩
  | ok found => exact .inr ⟨found.1, found.2, rfl, by rw [changing, hfound]; rfl⟩

/-- **What a call does.** -/
theorem effect_call (catalog : JobCatalog) (call : JobCall) :
    Effect catalog call (catalog.call call).1 (catalog.call call).2 := by
  cases call with
  | enqueue kind target key =>
    simp only [JobCatalog.call, enqueue, orInsert, TraceJob.new]
    cases hfound : catalog.jobs[key]? with
    | some existing => exact .known hfound
    | none => exact .new hfound
  | leaseNextAt workerId kind nowMs leaseMs =>
    simp only [JobCatalog.call, leaseNextAt]
    cases hfound : catalog.jobs.toList.find? fun e =>
        e.2.kind = kind && jobIsLeasable e.2 nowMs with
    | none => exact .idle workerId kind nowMs leaseMs
    | some e => exact .leased hfound
  | heartbeat jobId leaseToken nowMs leaseMs =>
    rcases catalog.attempt_changing_eq jobId (some leaseToken) fun job => job.extended nowMs leaseMs
      with ⟨e, heq⟩ | ⟨key, job, hfound, heq⟩
    · rw [JobCatalog.call, heartbeat_eq, heq]
      exact .refused _ e
    · rw [JobCatalog.call, heartbeat_eq, heq]
      exact .extended hfound
  | complete jobId leaseToken =>
    rcases catalog.attempt_changing_eq jobId leaseToken TraceJob.completed
      with ⟨e, heq⟩ | ⟨key, job, hfound, heq⟩
    · rw [JobCatalog.call, complete_eq, heq]
      exact .refused _ e
    · rw [JobCatalog.call, complete_eq, heq]
      exact .completed hfound
  | fail jobId leaseToken error permanent nextAttemptAfterMs =>
    rcases catalog.attempt_changing_eq jobId leaseToken fun job =>
        job.failed error permanent nextAttemptAfterMs with ⟨e, heq⟩ | ⟨key, job, hfound, heq⟩
    · rw [JobCatalog.call, fail_eq, heq]
      exact .refused _ e
    · rw [JobCatalog.call, fail_eq, heq]
      exact .failed hfound

/-- The job that a lease takes can be leased. -/
theorem nextLeasable_spec {kind : JobKind} {nowMs : ℕ} {key : String} {job : TraceJob}
    (h : catalog.nextLeasable kind nowMs = some (key, job)) :
    catalog.jobs[key]? = some job ∧ jobIsLeasable job nowMs = true := by
  have hp := List.find?_some h
  rw [Bool.and_eq_true] at hp
  exact ⟨getElem?_of_find? h, hp.2⟩

theorem Inv.effect (h : catalog.Inv) {call : JobCall} {out : JobReturn}
    (heffect : catalog.Effect call out catalog') : catalog'.Inv := by
  cases heffect with
  | refused | known | idle => exact h
  | @new kind target key hnone =>
    intro k j hj
    rcases getElem?_set_cases hj with ⟨rfl, rfl⟩ | ⟨-, hold⟩
    · exact ⟨rfl, rfl⟩
    · exact h k j hold
  | leased hfound => exact h.set (nextLeasable_spec hfound).1 rfl rfl rfl
  | extended hfound => exact h.set (jobMutForToken_spec hfound).1 rfl rfl rfl
  | completed hfound => exact h.set (jobMutForToken_spec hfound).1 rfl rfl rfl
  | failed hfound => exact h.set (jobMutForToken_spec hfound).1 rfl rfl rfl

theorem callAll_append (catalog : JobCatalog) (calls calls' : List JobCall) :
    catalog.callAll (calls ++ calls') =
      ((catalog.callAll calls).1 ++ ((catalog.callAll calls).2.callAll calls').1,
        ((catalog.callAll calls).2.callAll calls').2) := by
  induction calls generalizing catalog with
  | nil => rfl
  | cons call calls ih =>
    simp only [List.cons_append, callAll, ih]

/-- What the calls of a list have done so far. -/
theorem tracks_callAll (calls : List JobCall) :
    Tracks (empty.callAll calls).1 (empty.callAll calls).2 :=
  (runs_callAll .start calls).invariant .start fun _ _ _ _ _ hstep hs => hs.step hstep

end JobCatalog

/-! ### Statuses and attempts -/

/-- How the status of a job and its attempts go together. -/
structure TraceJob.Consistent (job : TraceJob) : Prop where
  maxAttempts : job.maxAttempts = 3
  notRunning : job.status ≠ .running
  queued : job.status = .queued → job.attempts = 0
  retryable : job.status = .failedRetryable → job.attempts < job.maxAttempts
  deadLettered : job.status = .deadLettered → job.maxAttempts ≤ job.attempts

namespace TraceJob.Consistent

variable {job : TraceJob}

theorem new (kind : JobKind) (target key : String) :
    (TraceJob.new kind target key).Consistent where
  maxAttempts := rfl
  notRunning h := by cases h
  queued _ := rfl
  retryable h := by cases h
  deadLettered h := by cases h

theorem leaseAt (h : job.Consistent) (workerId : String) (nowMs leaseMs : ℕ) :
    (job.leaseAt workerId nowMs leaseMs).Consistent where
  maxAttempts := h.maxAttempts
  notRunning h := by cases h
  queued h := by cases h
  retryable h := by cases h
  deadLettered h := by cases h

theorem extended (h : job.Consistent) (nowMs leaseMs : ℕ) :
    (job.extended nowMs leaseMs).Consistent :=
  ⟨h.maxAttempts, h.notRunning, h.queued, h.retryable, h.deadLettered⟩

theorem completed (h : job.Consistent) : job.completed.Consistent where
  maxAttempts := h.maxAttempts
  notRunning h := by cases h
  queued h := by cases h
  retryable h := by cases h
  deadLettered h := by cases h

theorem failed (h : job.Consistent) (error : String) (permanent : Bool) (nextAttemptAfterMs : ℕ) :
    (job.failed error permanent nextAttemptAfterMs).Consistent := by
  have hstatus : (job.failed error permanent nextAttemptAfterMs).status =
      if permanent then .failedPermanent
      else if job.attempts ≥ job.maxAttempts then .deadLettered else .failedRetryable := rfl
  refine ⟨h.maxAttempts, ?_, ?_, ?_, ?_⟩
  · rw [hstatus]
    split_ifs <;> decide
  · rw [hstatus]
    intro hqueued
    split_ifs at hqueued
  · rw [hstatus]
    intro hretry
    split_ifs at hretry with hpermanent hover
    exact UInt32.not_le.1 hover
  · rw [hstatus]
    intro hdead
    split_ifs at hdead with hpermanent hover
    exact hover

/-- A job that can be leased has attempts left, unless its lease has run out. -/
theorem attempts_lt (h : job.Consistent) {nowMs : ℕ} (hleasable : jobIsLeasable job nowMs = true)
    (hstatus : job.status ≠ .leased) : job.attempts < job.maxAttempts := by
  unfold jobIsLeasable at hleasable
  split at hleasable
  · rename_i hqueued
    rw [h.queued hqueued, h.maxAttempts]
    decide
  · rename_i hretryable
    exact h.retryable hretryable
  · rename_i hleased
    exact absurd hleased hstatus
  · rename_i hrunning
    exact absurd hrunning h.notRunning
  · cases hleasable

end TraceJob.Consistent

namespace JobCatalog

variable {catalog catalog' : JobCatalog}

/-- Every job of the catalog is consistent. -/
def AllConsistent (catalog : JobCatalog) : Prop :=
  ∀ (key : String) (job : TraceJob), catalog.jobs[key]? = some job → job.Consistent

theorem AllConsistent.set (h : catalog.AllConsistent) (key : String) {job : TraceJob}
    (hjob : job.Consistent) : (catalog.set key job).AllConsistent := by
  intro k j hj
  rcases getElem?_set_cases hj with ⟨-, rfl⟩ | ⟨-, hold⟩
  · exact hjob
  · exact h k j hold

theorem AllConsistent.effect (h : catalog.AllConsistent) {call : JobCall} {out : JobReturn}
    (heffect : catalog.Effect call out catalog') : catalog'.AllConsistent := by
  cases heffect with
  | refused | known | idle => exact h
  | new hnone => exact h.set _ (.new _ _ _)
  | leased hfound => exact h.set _ ((h _ _ (nextLeasable_spec hfound).1).leaseAt _ _ _)
  | extended hfound => exact h.set _ ((h _ _ (jobMutForToken_spec hfound).1).extended _ _)
  | completed hfound => exact h.set _ (h _ _ (jobMutForToken_spec hfound).1).completed
  | failed hfound => exact h.set _ ((h _ _ (jobMutForToken_spec hfound).1).failed _ _ _)

theorem AllConsistent.callAll (h : catalog.AllConsistent) (calls : List JobCall) :
    (catalog.callAll calls).2.AllConsistent := by
  induction calls generalizing catalog with
  | nil => exact h
  | cons call calls ih => exact ih (h.effect (catalog.effect_call call))

theorem allConsistent_empty : empty.AllConsistent := by
  intro key job h
  simp [empty] at h

end JobCatalog

/-! ### Finished jobs -/

namespace JobCatalog

variable {catalog catalog' : JobCatalog}

/-- A call that reports on a job that is over, and says that it ended otherwise. -/
def Reopens (catalog : JobCatalog) : JobCall → Prop
  | .complete jobId leaseToken => ∃ key job,
      catalog.jobMutForToken jobId leaseToken = .ok (key, job) ∧ job.status.isTerminal = true ∧
        job.status ≠ .succeeded
  | .fail jobId leaseToken _ permanent _ => ∃ key job,
      catalog.jobMutForToken jobId leaseToken = .ok (key, job) ∧ job.status.isTerminal = true ∧
        job.status ≠ if permanent then .failedPermanent else .deadLettered
  | _ => False

/-- A job that is over stays as it ended when no call reopens it, and is not leased. -/
theorem Effect.keeps_terminal (hinv : catalog.Inv) (hall : catalog.AllConsistent) {call : JobCall}
    {out : JobReturn} (h : catalog.Effect call out catalog') (hcall : ¬ catalog.Reopens call)
    {key : String} {job : TraceJob} (hjob : catalog.jobs[key]? = some job)
    (hterminal : job.status.isTerminal = true) :
    (∃ job', catalog'.jobs[key]? = some job' ∧ job'.jobId = job.jobId ∧
        job'.status = job.status) ∧
      ∀ token, issue (call, out) ≠ some (job.jobId, token) := by
  -- A call that writes another job leaves this one.
  have hother : ∀ (k : String) (j : TraceJob), k ≠ key →
      ∃ job', (catalog.set k j).jobs[key]? = some job' ∧ job'.jobId = job.jobId ∧
        job'.status = job.status :=
    fun k j hk => ⟨job, (getElem?_set_of_ne j hk.symm).trans hjob, rfl, rfl⟩
  cases h with
  | refused call e =>
    refine ⟨⟨job, hjob, rfl, rfl⟩, fun token hissue => ?_⟩
    cases call <;> cases hissue
  | known | idle => exact ⟨⟨job, hjob, rfl, rfl⟩, fun token hissue => by cases hissue⟩
  | new hnone =>
    refine ⟨hother _ _ ?_, fun token hissue => by cases hissue⟩
    rintro rfl
    rw [hjob] at hnone
    cases hnone
  | @leased workerId kind nowMs leaseMs k found hfound =>
    obtain ⟨hget, hleasable⟩ := nextLeasable_spec hfound
    have hkey : k ≠ key := by
      rintro rfl
      rw [hjob] at hget
      obtain rfl := Option.some.inj hget
      unfold jobIsLeasable at hleasable
      revert hterminal hleasable
      cases job.status <;> simp [JobStatus.isTerminal]
    refine ⟨hother _ _ hkey, fun token hissue => ?_⟩
    have hid : found.jobId = job.jobId := (Prod.mk.inj (Option.some.inj hissue)).1
    exact hkey (hinv.eq_key hget hjob hid).1
  | @extended jobId token nowMs leaseMs k found hfound =>
    refine ⟨?_, fun token hissue => by cases hissue⟩
    by_cases hk : k = key
    · subst hk
      have hget := (jobMutForToken_spec hfound).1
      rw [hjob] at hget
      obtain rfl := Option.some.inj hget
      exact ⟨_, getElem?_set_self .., rfl, rfl⟩
    · exact hother _ _ hk
  | @completed jobId token k found hfound =>
    refine ⟨?_, fun token hissue => by cases hissue⟩
    by_cases hk : k = key
    · subst hk
      have hget := (jobMutForToken_spec hfound).1
      rw [hjob] at hget
      obtain rfl := Option.some.inj hget
      have hsame : job.status = .succeeded := by
        by_contra hne
        exact hcall ⟨k, job, hfound, hterminal, hne⟩
      exact ⟨_, getElem?_set_self .., rfl, hsame.symm⟩
    · exact hother _ _ hk
  | @failed jobId token error permanent next k found hfound =>
    refine ⟨?_, fun token hissue => by cases hissue⟩
    by_cases hk : k = key
    · subst hk
      have hget := (jobMutForToken_spec hfound).1
      rw [hjob] at hget
      obtain rfl := Option.some.inj hget
      have hsame : job.status = if permanent then .failedPermanent else .deadLettered := by
        by_contra hne
        exact hcall ⟨k, job, hfound, hterminal, hne⟩
      refine ⟨_, getElem?_set_self .., rfl, ?_⟩
      show (if permanent then JobStatus.failedPermanent
        else if job.attempts ≥ job.maxAttempts then .deadLettered else .failedRetryable) = _
      cases permanent with
      | true => exact hsame.symm
      | false => rw [if_neg Bool.false_ne_true,
          if_pos ((hall k job hjob).deadLettered hsame), hsame]; rfl
    · exact hother _ _ hk

/-- A call that reopens a job changes its status. -/
theorem Reopens.changes {call : JobCall} (h : catalog.Reopens call) :
    ∃ (key : String) (job job' : TraceJob), catalog.jobs[key]? = some job ∧
      job.status.isTerminal = true ∧ (catalog.call call).2.jobs[key]? = some job' ∧
      job'.status ≠ job.status := by
  cases call with
  | complete jobId leaseToken =>
    obtain ⟨key, job, hfound, hterminal, hne⟩ := h
    refine ⟨key, job, job.completed, (jobMutForToken_spec hfound).1, hterminal, ?_, hne.symm⟩
    rw [JobCatalog.call, complete_eq, changing, hfound]
    exact getElem?_set_self ..
  | fail jobId leaseToken error permanent next =>
    obtain ⟨key, job, hfound, hterminal, hne⟩ := h
    refine ⟨key, job, job.failed error permanent next, (jobMutForToken_spec hfound).1, hterminal,
      ?_, ?_⟩
    · rw [JobCatalog.call, fail_eq, changing, hfound]
      exact getElem?_set_self ..
    · show (if permanent then JobStatus.failedPermanent
        else if job.attempts ≥ job.maxAttempts then .deadLettered else .failedRetryable) ≠ _
      split_ifs at hne ⊢ with hpermanent hover
      · exact hne.symm
      · exact hne.symm
      · rintro heq
        rw [← heq] at hterminal
        cases hterminal
  | enqueue | leaseNextAt | heartbeat => exact h.elim

end JobCatalog

/-- In the run of the calls, a job that is over keeps its status and is not leased again. -/
def TerminalFinal (calls : List JobCall) : Prop :=
  ∀ done between rest, calls = done ++ between ++ rest →
    ∀ (key : String) (job : TraceJob), (JobCatalog.empty.callAll done).2.jobs[key]? = some job →
      job.status.isTerminal = true →
      (∃ job', (JobCatalog.empty.callAll (done ++ between)).2.jobs[key]? = some job' ∧
          job'.status = job.status) ∧
        ∀ label ∈ ((JobCatalog.empty.callAll done).2.callAll between).1, ∀ token,
          issue label ≠ some (job.jobId, token)

/-- Terminal statuses are kept over any number of calls that reopen nothing. -/
theorem JobCatalog.callAll_keeps_terminal {catalog : JobCatalog} (hinv : catalog.Inv)
    (hall : catalog.AllConsistent) {calls : List JobCall}
    (hcalls : ∀ done call rest, calls = done ++ call :: rest →
      ¬ (catalog.callAll done).2.Reopens call)
    {key : String} {job : TraceJob} (hjob : catalog.jobs[key]? = some job)
    (hterminal : job.status.isTerminal = true) :
    (∃ job', (catalog.callAll calls).2.jobs[key]? = some job' ∧ job'.status = job.status) ∧
      ∀ label ∈ (catalog.callAll calls).1, ∀ token, issue label ≠ some (job.jobId, token) := by
  induction calls generalizing catalog job with
  | nil => exact ⟨⟨job, hjob, rfl⟩, fun label hmem => absurd hmem List.not_mem_nil⟩
  | cons call calls ih =>
    have heffect := catalog.effect_call call
    obtain ⟨⟨job', hjob', hid, hstatus⟩, hissue⟩ :=
      heffect.keeps_terminal hinv hall (hcalls [] call calls rfl) hjob hterminal
    have hinv' : (catalog.call call).2.Inv := hinv.effect heffect
    obtain ⟨⟨last, hlast, hsame⟩, hissues⟩ := ih hinv' (hall.effect heffect)
      (fun done next rest heq => hcalls (call :: done) next rest (by rw [heq]; rfl)) hjob'
      (hstatus.symm ▸ hterminal)
    refine ⟨⟨last, hlast, hsame.trans hstatus⟩, fun label hmem token => ?_⟩
    rcases List.mem_cons.1 hmem with rfl | hlater
    · exact hissue token
    · rw [← hid]
      exact hissues label hlater token

/-- **Finished jobs stay finished just when no report reopens one.**  In the run of any list of
calls, statuses of finished jobs never change and finished jobs are never leased if and only if no
`complete` or `fail` that is accepted says that a finished job ended otherwise than it did. -/
theorem terminal_final_iff (calls : List JobCall) :
    TerminalFinal calls ↔ ∀ done call rest, calls = done ++ call :: rest →
      ¬ (JobCatalog.empty.callAll done).2.Reopens call := by
  constructor
  · rintro hfinal done call rest rfl hreopens
    obtain ⟨key, job, job', hjob, hterminal, hjob', hne⟩ := hreopens.changes
    obtain ⟨⟨last, hlast, hsame⟩, -⟩ :=
      hfinal done [call] rest (by rw [List.append_assoc]; rfl) key job hjob hterminal
    rw [JobCatalog.callAll_append] at hlast
    obtain rfl := Option.some.inj (hjob'.symm.trans hlast)
    exact hne hsame
  · rintro hcalls done between rest rfl key job hjob hterminal
    rw [JobCatalog.callAll_append]
    refine JobCatalog.callAll_keeps_terminal (JobCatalog.tracks_callAll done).inv
      (JobCatalog.allConsistent_empty.callAll done) ?_ hjob hterminal
    rintro mid call rest' rfl
    have hnot := hcalls (done ++ mid) call (rest' ++ rest)
      (by simp only [List.append_assoc, List.cons_append])
    rw [JobCatalog.callAll_append] at hnot
    exact hnot

/-- A job that is completed, and then fails under the same token. -/
def lateFailure : List JobCall :=
  [.enqueue .verifyDatabase "docs" "nightly", .leaseNextAt "a" .verifyDatabase 0 10,
    .complete "job:verify_database:nightly" (some "lease:job:verify_database:nightly:1"),
    .fail "job:verify_database:nightly" (some "lease:job:verify_database:nightly:1") "late" false 5,
    .leaseNextAt "b" .verifyDatabase 5 10]

/-- **A late report reopens a job**: it had succeeded, and is leased again. -/
theorem late_failure_reopens :
    ((JobCatalog.empty.callAll (lateFailure.take 3)).2.jobs["nightly"]?.map (·.status)) =
        some .succeeded ∧
      ((JobCatalog.empty.callAll lateFailure).2.jobs["nightly"]?.map (·.status)) = some .leased ∧
      ¬ TerminalFinal lateFailure := by
  have hdone : ((JobCatalog.empty.callAll (lateFailure.take 3)).2.jobs["nightly"]?.map
      (·.status)) = some .succeeded := by decide +kernel
  have hlast : ((JobCatalog.empty.callAll lateFailure).2.jobs["nightly"]?.map (·.status)) =
      some .leased := by decide +kernel
  refine ⟨hdone, hlast, fun hfinal => ?_⟩
  obtain ⟨job, hjob, hstatus⟩ := Option.map_eq_some_iff.1 hdone
  obtain ⟨⟨job', hjob', hsame⟩, -⟩ := hfinal (lateFailure.take 3) (lateFailure.drop 3) [] rfl
    "nightly" job hjob (by rw [hstatus]; rfl)
  have hsplit : lateFailure.take 3 ++ lateFailure.drop 3 = lateFailure := rfl
  rw [hsplit] at hjob'
  rw [hjob', Option.map_some, hsame, hstatus] at hlast
  cases hlast

/-! ### Attempts -/

namespace JobCatalog

/-- A call that gives on a lease that has run out, of a job without attempts left. -/
def Overruns (catalog : JobCatalog) : JobCall → Prop
  | .leaseNextAt _ kind nowMs _ => ∃ key job, catalog.nextLeasable kind nowMs = some (key, job) ∧
      job.status = .leased ∧ job.maxAttempts ≤ job.attempts
  | _ => False

end JobCatalog

/-- In the run of the calls, the attempts of a job are the number of its leases, and no more than
`max_attempts`. -/
def AttemptsBounded (calls : List JobCall) : Prop :=
  ∀ done rest, calls = done ++ rest → ∀ (key : String) (job : TraceJob),
    (JobCatalog.empty.callAll done).2.jobs[key]? = some job →
      (issuedFor (JobCatalog.empty.callAll done).1 job.jobId).length ≤ job.maxAttempts.toNat ∧
        job.attempts.toNat = (issuedFor (JobCatalog.empty.callAll done).1 job.jobId).length ∧
        job.attempts ≤ job.maxAttempts

/-- The number of leases after one more call. -/
theorem length_issuedFor_snoc (trace : List JobLabel) (label : JobLabel) (jobId : String) :
    (issuedFor (trace ++ [label]) jobId).length = (issuedFor trace jobId).length +
      if (issue label).map (·.1) = some jobId then 1 else 0 := by
  rw [issuedFor, issuedFor, issued_snoc, List.filter_append, List.map_append, List.length_append]
  cases issue label with
  | none => rfl
  | some pair =>
    by_cases hid : pair.1 = jobId
    · simp [hid]
    · simp [hid]

theorem JobCatalog.callAll_snoc (catalog : JobCatalog) (calls : List JobCall) (call : JobCall) :
    catalog.callAll (calls ++ [call]) =
      ((catalog.callAll calls).1 ++ [(call, ((catalog.callAll calls).2.call call).1)],
        ((catalog.callAll calls).2.call call).2) :=
  catalog.callAll_append calls [call]

/-- The leases of every job, as long as no call overruns. -/
theorem length_issuedFor_le {calls : List JobCall}
    (hcalls : ∀ done call rest, calls = done ++ call :: rest →
      ¬ (JobCatalog.empty.callAll done).2.Overruns call) (jobId : String) :
    (issuedFor (JobCatalog.empty.callAll calls).1 jobId).length ≤ 3 := by
  induction calls using List.reverseRecOn with
  | nil => exact Nat.zero_le 3
  | append_singleton calls call ih =>
    have hle := ih fun done next rest heq => hcalls done next (rest ++ [call]) (by rw [heq]; simp)
    have hnot := hcalls calls call [] rfl
    have htracks := JobCatalog.tracks_callAll calls
    have hall := JobCatalog.allConsistent_empty.callAll calls
    rw [JobCatalog.callAll_snoc, length_issuedFor_snoc]
    split_ifs with hissue
    · -- Only a lease issues a token, and the job it takes has attempts left.
      have heffect := (JobCatalog.empty.callAll calls).2.effect_call call
      generalize ((JobCatalog.empty.callAll calls).2.call call).1 = out at hissue heffect
      generalize ((JobCatalog.empty.callAll calls).2.call call).2 = last at heffect
      cases heffect with
      | refused call e => cases call <;> cases hissue
      | known | new | idle | extended | completed | failed => cases hissue
      | @leased workerId kind nowMs leaseMs key job hfound =>
        obtain ⟨hget, hleasable⟩ := JobCatalog.nextLeasable_spec hfound
        have hid : job.jobId = jobId := Option.some.inj hissue
        have hjob := hall key job hget
        have hlt : job.attempts < job.maxAttempts := by
          by_cases hstatus : job.status = .leased
          · by_contra hover
            exact hnot ⟨key, job, hfound, hstatus, UInt32.not_lt.1 hover⟩
          · exact hjob.attempts_lt hleasable hstatus
        have hcount := htracks.attempts key job hget
        rw [hid] at hcount
        have hsmall : (issuedFor (JobCatalog.empty.callAll calls).1 jobId).length < 2 ^ 32 := by
          omega
        rw [hcount, hjob.maxAttempts, UInt32.lt_iff_toNat_lt,
          UInt32.toNat_ofNat_of_lt' hsmall] at hlt
        have hthree : (3 : UInt32).toNat = 3 := rfl
        omega
    · omega

/-- **The attempts are bounded just when no last lease is given on.**  In the run of any list of
calls and clock values, no job is leased more than `max_attempts` times, and the counter of its
attempts is the number of its leases, if and only if no lease takes a job whose lease has run out
and whose attempts have reached `max_attempts`. -/
theorem attempts_bounded_iff (calls : List JobCall) :
    AttemptsBounded calls ↔ ∀ done call rest, calls = done ++ call :: rest →
      ¬ (JobCatalog.empty.callAll done).2.Overruns call := by
  constructor
  · rintro hbounded done call rest rfl hover
    cases call with
    | leaseNextAt workerId kind nowMs leaseMs =>
      obtain ⟨key, job, hfound, -, hattempts⟩ := hover
      have hget := (JobCatalog.nextLeasable_spec hfound).1
      obtain ⟨-, hcount, -⟩ := hbounded done _ rfl key job hget
      have hcall : (JobCatalog.empty.callAll done).2.call
          (.leaseNextAt workerId kind nowMs leaseMs) =
            (.ok (some (job.leaseAt workerId nowMs leaseMs)),
              (JobCatalog.empty.callAll done).2.set key (job.leaseAt workerId nowMs leaseMs)) := by
        have hfind : ((JobCatalog.empty.callAll done).2.jobs.toList.find? fun e =>
          e.2.kind = kind && jobIsLeasable e.2 nowMs) = some (key, job) := hfound
        simp only [JobCatalog.call, JobCatalog.leaseNextAt, hfind]
      obtain ⟨hleases, -, -⟩ := hbounded (done ++ [.leaseNextAt workerId kind nowMs leaseMs]) rest
        (by rw [List.append_assoc]; rfl) key (job.leaseAt workerId nowMs leaseMs) (by
          rw [JobCatalog.callAll_snoc, hcall]
          exact JobCatalog.getElem?_set_self ..)
      have hissue : (issue (.leaseNextAt workerId kind nowMs leaseMs,
          .ok (some (job.leaseAt workerId nowMs leaseMs)))).map (·.1) = some job.jobId := rfl
      have hmax : (job.leaseAt workerId nowMs leaseMs).maxAttempts = job.maxAttempts := rfl
      have hid : (job.leaseAt workerId nowMs leaseMs).jobId = job.jobId := rfl
      rw [JobCatalog.callAll_snoc, hcall, length_issuedFor_snoc, hmax, hid,
        if_pos hissue] at hleases
      rw [UInt32.le_iff_toNat_le] at hattempts
      omega
    | enqueue | heartbeat | complete | fail => exact hover.elim
  · rintro hcalls done rest rfl key job hjob
    have hle : (issuedFor (JobCatalog.empty.callAll done).1 job.jobId).length ≤ 3 := by
      refine length_issuedFor_le (fun mid call rest' heq => ?_) job.jobId
      exact hcalls mid call (rest' ++ rest) (by rw [heq, List.append_assoc]; rfl)
    have hmax : job.maxAttempts.toNat = 3 := by
      rw [((JobCatalog.allConsistent_empty.callAll done) key job hjob).maxAttempts]
      rfl
    have hsmall : (issuedFor (JobCatalog.empty.callAll done).1 job.jobId).length < 2 ^ 32 := by
      omega
    have hcount : job.attempts.toNat =
        (issuedFor (JobCatalog.empty.callAll done).1 job.jobId).length := by
      rw [(JobCatalog.tracks_callAll done).attempts key job hjob, UInt32.toNat_ofNat_of_lt' hsmall]
    refine ⟨by omega, hcount, ?_⟩
    rw [UInt32.le_iff_toNat_le]
    omega

/-- A job whose workers never report. -/
def silentWorkers : List JobCall :=
  [.enqueue .verifyDatabase "docs" "nightly", .leaseNextAt "a" .verifyDatabase 0 10,
    .leaseNextAt "b" .verifyDatabase 10 10, .leaseNextAt "c" .verifyDatabase 20 10,
    .leaseNextAt "d" .verifyDatabase 30 10]

/-- **A lease that runs out costs no attempt**: a job with three attempts is leased a fourth
time. -/
theorem expired_lease_overruns :
    ((JobCatalog.empty.callAll silentWorkers).2.jobs["nightly"]?.map fun job =>
        (job.attempts, job.maxAttempts)) = some (4, 3) ∧ ¬ AttemptsBounded silentWorkers := by
  have hlast : ((JobCatalog.empty.callAll silentWorkers).2.jobs["nightly"]?.map fun job =>
      (job.attempts, job.maxAttempts)) = some (4, 3) := by decide +kernel
  refine ⟨hlast, fun hbounded => ?_⟩
  obtain ⟨job, hjob, hpair⟩ := Option.map_eq_some_iff.1 hlast
  obtain ⟨-, -, hle⟩ := hbounded silentWorkers [] (List.append_nil _).symm "nightly" job hjob
  obtain ⟨hattempts, hmax⟩ := Prod.mk.inj hpair
  rw [hattempts, hmax] at hle
  exact absurd hle (by decide)

end TraceDB
