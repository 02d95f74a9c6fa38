import TraceDB.Data.Runs
import TraceDB.Jobs.Catalog

/-!
# Leases

A worker that leases a job gets a token, and shows it when it goes on with the job.  A lease ends
when its time is over, or when the job is completed or failed; then the job can be leased again,
under a new token.

* `JobCatalog.Shows` : the leases of the catalog are those that the calls have said.
* `JobCatalog.Tracks` : what the catalog knows about a job is what the calls so far have said about
  it: how often it was leased, under which token the last time, and how long that lease lasts.
* `lease_exclusive` : tokens are not issued twice, only the last token of a job is accepted, and a
  job is not leased while a lease on it lasts.
-/

namespace TraceDB

/-! ### Tokens -/

/-- The token of a lease. -/
def leaseTokenOf (jobId : String) (attempt : UInt32) : String :=
  "lease:" ++ jobId ++ ":" ++ toString attempt.toNat

/-- A token names its job and its attempt: the attempt is what follows the last colon. -/
theorem leaseTokenOf_inj {id id' : String} {n n' : UInt32}
    (h : leaseTokenOf id n = leaseTokenOf id' n') : id = id' ∧ n = n' := by
  have hl := congrArg (List.reverse ∘ String.toList) h
  simp only [leaseTokenOf, Function.comp_apply, String.toList_append, List.reverse_append,
    List.append_assoc] at hl
  obtain ⟨hn, hid⟩ := Text.append_sep_inj (c := ':')
    (fun hm => Text.not_mem_toString rfl n.toNat (List.mem_reverse.1 hm))
    (fun hm => Text.not_mem_toString rfl n'.toNat (List.mem_reverse.1 hm)) hl
  refine ⟨?_, ?_⟩
  · exact String.toList_inj.1 (List.reverse_injective (List.append_cancel_right hid))
  · exact UInt32.toNat_inj.1
      (toString_nat_inj (String.toList_inj.1 (List.reverse_injective hn)))

/-! ### Calls -/

/-- The calls of a catalog. -/
inductive JobCall where
  | enqueue (kind : JobKind) (target idempotencyKey : String)
  | leaseNextAt (workerId : String) (kind : JobKind) (nowMs leaseMs : ℕ)
  | heartbeat (jobId leaseToken : String) (nowMs leaseMs : ℕ)
  | complete (jobId : String) (leaseToken : Option String)
  | fail (jobId : String) (leaseToken : Option String) (error : String) (permanent : Bool)
      (nextAttemptAfterMs : ℕ)
  deriving DecidableEq

/-- What a call returns. -/
abbrev JobReturn := Except String (Option TraceJob)

/-- A call of a fallible operation: when it fails, the catalog is as it was. -/
def JobCatalog.attempt (catalog : JobCatalog) :
    Except String (JobCatalog × TraceJob) → JobReturn × JobCatalog
  | .error e => (.error e, catalog)
  | .ok (catalog', job) => (.ok (some job), catalog')

/-- A call: what it returns, and the catalog afterwards. -/
def JobCatalog.call (catalog : JobCatalog) : JobCall → JobReturn × JobCatalog
  | .enqueue kind target idempotencyKey =>
    let (catalog', job) := catalog.enqueue kind target idempotencyKey
    (.ok (some job), catalog')
  | .leaseNextAt workerId kind nowMs leaseMs =>
    let (catalog', job) := catalog.leaseNextAt workerId kind nowMs leaseMs
    (.ok job, catalog')
  | .heartbeat jobId leaseToken nowMs leaseMs =>
    catalog.attempt (catalog.heartbeat jobId leaseToken nowMs leaseMs)
  | .complete jobId leaseToken => catalog.attempt (catalog.complete jobId leaseToken)
  | .fail jobId leaseToken error permanent nextAttemptAfterMs =>
    catalog.attempt (catalog.fail jobId leaseToken error permanent nextAttemptAfterMs)

/-- A call and what it returned. -/
abbrev JobLabel := JobCall × JobReturn

/-- The runs of a catalog are the runs of its calls. -/
def JobStep (catalog : JobCatalog) (label : JobLabel) (catalog' : JobCatalog) : Prop :=
  catalog.call label.1 = (label.2, catalog')

namespace TraceJob

variable (job : TraceJob)

/-- The lease of a job is extended. -/
def extended (nowMs leaseMs : ℕ) : TraceJob :=
  { job with leaseExpiresAtMs := some (saturatingAddU64 nowMs (max leaseMs 1)) }

@[simp] theorem extended_status (nowMs leaseMs : ℕ) :
    (job.extended nowMs leaseMs).status = job.status := rfl

/-- A job is completed. -/
def completed : TraceJob :=
  { job with status := .succeeded, leaseExpiresAtMs := none, nextAttemptAfterMs := none }

/-- A job has failed. -/
def failed (error : String) (permanent : Bool) (nextAttemptAfterMs : ℕ) : TraceJob :=
  { job with
    lastError := some error
    leaseExpiresAtMs := none
    nextAttemptAfterMs := some nextAttemptAfterMs
    status := if permanent then .failedPermanent
      else if job.attempts ≥ job.maxAttempts then .deadLettered else .failedRetryable }

theorem failed_status_ne (error : String) (permanent : Bool) (nextAttemptAfterMs : ℕ) :
    (job.failed error permanent nextAttemptAfterMs).status ≠ .leased := by
  unfold failed
  dsimp only
  split_ifs <;> decide

end TraceJob

namespace JobCatalog

variable {catalog catalog' : JobCatalog}

/-- The operations on a job that ask for its token: a change of the job with the given id. -/
def changing (catalog : JobCatalog) (jobId : String) (leaseToken : Option String)
    (change : TraceJob → TraceJob) : Except String (JobCatalog × TraceJob) := do
  let (key, job) ← catalog.jobMutForToken jobId leaseToken
  .ok (catalog.set key (change job), change job)

theorem heartbeat_eq (jobId leaseToken : String) (nowMs leaseMs : ℕ) :
    catalog.heartbeat jobId leaseToken nowMs leaseMs =
      catalog.changing jobId (some leaseToken) fun job => job.extended nowMs leaseMs := rfl

theorem complete_eq (jobId : String) (leaseToken : Option String) :
    catalog.complete jobId leaseToken = catalog.changing jobId leaseToken TraceJob.completed := rfl

theorem fail_eq (jobId : String) (leaseToken : Option String) (error : String) (permanent : Bool)
    (nextAttemptAfterMs : ℕ) :
    catalog.fail jobId leaseToken error permanent nextAttemptAfterMs =
      catalog.changing jobId leaseToken fun job =>
        job.failed error permanent nextAttemptAfterMs := rfl

/-- The job that is found has the token that was shown. -/
theorem jobMutForToken_token {jobId token key : String} {job : TraceJob}
    (h : catalog.jobMutForToken jobId (some token) = .ok (key, job)) :
    job.leaseToken = some token := by
  unfold jobMutForToken at h
  split at h
  · cases h
  · obtain ⟨htoken, hjob⟩ := Except.guard_eq_ok_iff.1 h
    obtain ⟨-, rfl⟩ := Prod.mk.inj (Except.ok.inj hjob)
    exact not_not.1 htoken

/-- What such an operation does: it fails and changes nothing, or it changes the job, which has the
token if one was shown. -/
theorem attempt_changing {jobId : String} {leaseToken : Option String}
    {change : TraceJob → TraceJob} {out : JobReturn}
    (h : catalog.attempt (catalog.changing jobId leaseToken change) =
      (out, catalog')) :
    (∃ e, out = .error e ∧ catalog' = catalog) ∨
      ∃ (key : String) (job : TraceJob), catalog.jobs[key]? = some job ∧ job.jobId = jobId ∧
        (∀ token, leaseToken = some token → job.leaseToken = some token) ∧
        out = .ok (some (change job)) ∧ catalog' = catalog.set key (change job) := by
  cases hfound : catalog.jobMutForToken jobId leaseToken with
  | error e =>
    rw [changing, hfound] at h
    obtain ⟨rfl, rfl⟩ := Prod.mk.inj h
    exact .inl ⟨e, rfl, rfl⟩
  | ok found =>
    obtain ⟨key, job⟩ := found
    rw [changing, hfound] at h
    obtain ⟨rfl, rfl⟩ := Prod.mk.inj h
    obtain ⟨hjob, hid⟩ := jobMutForToken_spec hfound
    refine .inr ⟨key, job, hjob, hid, ?_, rfl, rfl⟩
    rintro token rfl
    exact jobMutForToken_token hfound

/-- What a lease does: there is no job to lease, or the first one that can be leased is. -/
theorem leaseNextAt_cases (catalog : JobCatalog) (workerId : String) (kind : JobKind)
    (nowMs leaseMs : ℕ) :
    catalog.leaseNextAt workerId kind nowMs leaseMs = (catalog, none) ∨
      ∃ (key : String) (job : TraceJob), catalog.jobs[key]? = some job ∧ job.kind = kind ∧
        jobIsLeasable job nowMs = true ∧
        catalog.leaseNextAt workerId kind nowMs leaseMs =
          (catalog.set key (job.leaseAt workerId nowMs leaseMs),
            some (job.leaseAt workerId nowMs leaseMs)) := by
  unfold leaseNextAt
  cases hfound : catalog.jobs.toList.find? fun e =>
      e.2.kind = kind && jobIsLeasable e.2 nowMs with
  | none => exact .inl rfl
  | some e =>
    obtain ⟨key, job⟩ := e
    have hp := List.find?_some hfound
    rw [Bool.and_eq_true, decide_eq_true_eq] at hp
    exact .inr ⟨key, job, getElem?_of_find? hfound, hp.1, hp.2, rfl⟩

end JobCatalog

/-! ### What the calls have said -/

/-- The job and the token of a lease that was granted. -/
def issue : JobLabel → Option (String × String)
  | (.leaseNextAt _ _ _ _, .ok (some job)) => some (job.jobId, job.leaseToken.getD "")
  | _ => none

/-- The tokens that were issued, with their jobs. -/
def issued (trace : List JobLabel) : List (String × String) := trace.filterMap issue

/-- The tokens that were issued for a job. -/
def issuedFor (trace : List JobLabel) (jobId : String) : List String :=
  ((issued trace).filter fun e => e.1 = jobId).map (·.2)

/-- How long the lease on a job lasts after a call. -/
def leaseAfter (jobId : String) (current : Option ℕ) : JobLabel → Option ℕ
  | (.leaseNextAt _ _ _ _, .ok (some job)) =>
    if job.jobId = jobId then job.leaseExpiresAtMs else current
  | (.heartbeat id _ _ _, .ok (some job)) =>
    if id = jobId then current.bind fun _ => job.leaseExpiresAtMs else current
  | (.complete id _, .ok _) | (.fail id _ _ _ _, .ok _) => if id = jobId then none else current
  | _ => current

/-- How long the lease on a job lasts, when there is one that has not been ended. -/
def currentLease (trace : List JobLabel) (jobId : String) : Option ℕ :=
  trace.foldl (leaseAfter jobId) none

theorem issued_snoc (trace : List JobLabel) (label : JobLabel) :
    issued (trace ++ [label]) = issued trace ++ (issue label).toList := by
  rw [issued, List.filterMap_append]
  cases h : issue label <;> simp [issued, h]

theorem issued_snoc_of_none (trace : List JobLabel) {label : JobLabel} (h : issue label = none) :
    issued (trace ++ [label]) = issued trace := by
  rw [issued_snoc, h]
  exact List.append_nil _

theorem issuedFor_congr {trace trace' : List JobLabel} (h : issued trace' = issued trace)
    (jobId : String) : issuedFor trace' jobId = issuedFor trace jobId := by
  rw [issuedFor, issuedFor, h]

theorem currentLease_snoc (trace : List JobLabel) (label : JobLabel) (jobId : String) :
    currentLease (trace ++ [label]) jobId = leaseAfter jobId (currentLease trace jobId) label := by
  rw [currentLease, List.foldl_append]
  rfl

/-! ### The invariant -/

namespace JobCatalog

/-- The leases of a catalog are those that the calls so far have said. -/
structure Shows (trace : List JobLabel) (catalog : JobCatalog) : Prop where
  lease : ∀ (key : String) (job : TraceJob), catalog.jobs[key]? = some job →
    currentLease trace job.jobId = if job.status = .leased then job.leaseExpiresAtMs else none
  timed : ∀ (key : String) (job : TraceJob), catalog.jobs[key]? = some job →
    job.status = .leased → job.leaseExpiresAtMs ≠ none
  /-- Nothing is leased that is not in the catalog. -/
  absent : ∀ id, (∀ (key : String) (job : TraceJob), catalog.jobs[key]? = some job →
    job.jobId ≠ id) → currentLease trace id = none

/-- What the catalog has to do with the calls so far. -/
structure Tracks (trace : List JobLabel) (catalog : JobCatalog) :
    Prop extends Shows trace catalog where
  inv : catalog.Inv
  /-- Every token was issued for a job of the catalog, for one of its attempts so far. -/
  named : ∀ id token, (id, token) ∈ issued trace →
    (∃ (key : String) (job : TraceJob), catalog.jobs[key]? = some job ∧ job.jobId = id) ∧
      ∃ n, 0 < n ∧ n ≤ (issuedFor trace id).length ∧ token = leaseTokenOf id (.ofNat n)
  attempts : ∀ (key : String) (job : TraceJob), catalog.jobs[key]? = some job →
    job.attempts = UInt32.ofNat (issuedFor trace job.jobId).length
  token : ∀ (key : String) (job : TraceJob), catalog.jobs[key]? = some job →
    job.leaseToken = (issuedFor trace job.jobId).getLast?
  distinct : (∀ id, (issuedFor trace id).length < 2 ^ 32) → ((issued trace).map (·.2)).Nodup

/-- Job ids name the keys. -/
theorem Inv.eq_key {catalog : JobCatalog} (h : catalog.Inv) {key key' : String}
    {job job' : TraceJob} (hjob : catalog.jobs[key]? = some job)
    (hjob' : catalog.jobs[key']? = some job') (hid : job.jobId = job'.jobId) :
    key = key' ∧ job = job' := by
  have hfind := h.keyForJobId_eq hjob
  rw [hid, h.keyForJobId_eq hjob'] at hfind
  obtain ⟨rfl, rfl⟩ := Prod.mk.inj (Option.some.inj hfind)
  exact ⟨rfl, rfl⟩

/-- A new job has another id than those that are there. -/
theorem Inv.jobId_ne {catalog : JobCatalog} (h : catalog.Inv) {kind : JobKind} {key : String}
    (hnew : catalog.jobs[key]? = none) (k : String) (j : TraceJob)
    (hj : catalog.jobs[k]? = some j) : j.jobId ≠ jobIdOf kind key := by
  intro hid
  rw [(h k j hj).2] at hid
  obtain ⟨-, rfl⟩ := jobIdOf_inj hid
  rw [hnew] at hj
  cases hj

namespace Shows

variable {trace : List JobLabel} {catalog catalog' : JobCatalog} {label : JobLabel}

theorem start : Shows [] empty := by
  have hnone : ∀ (key : String) (job : TraceJob), empty.jobs[key]? ≠ some job := by
    intro key job h
    simp [empty] at h
  exact ⟨fun key job h => absurd h (hnone key job), fun key job h => absurd h (hnone key job),
    fun _ _ => rfl⟩

/-- A call that says nothing about leases. -/
theorem quiet (h : Shows trace catalog)
    (hlease : ∀ id current, leaseAfter id current label = current) :
    Shows (trace ++ [label]) catalog := by
  have hcurrent : ∀ id, currentLease (trace ++ [label]) id = currentLease trace id :=
    fun id => (currentLease_snoc ..).trans (hlease id _)
  refine ⟨?_, h.timed, ?_⟩
  · simp only [hcurrent]
    exact h.lease
  · simp only [hcurrent]
    exact h.absent

/-- A call that changes one job. -/
theorem set (h : Shows trace catalog) (hinv : catalog.Inv) {key : String} {job job' : TraceJob}
    (hjob : catalog.jobs[key]? = some job) (hid : job'.jobId = job.jobId)
    (htimed : job'.status = .leased → job'.leaseExpiresAtMs ≠ none)
    (hlease : leaseAfter job.jobId (if job.status = .leased then job.leaseExpiresAtMs else none)
      label = if job'.status = .leased then job'.leaseExpiresAtMs else none)
    (hother : ∀ id, id ≠ job.jobId → ∀ current, leaseAfter id current label = current) :
    Shows (trace ++ [label]) (catalog.set key job') := by
  refine ⟨fun k j hj => ?_, fun k j hj => ?_, fun id habsent => ?_⟩
  · rw [currentLease_snoc]
    rcases getElem?_set_cases hj with ⟨-, rfl⟩ | ⟨hne, hold⟩
    · rw [hid, h.lease key job hjob, hlease]
    · rw [hother j.jobId ?_, h.lease k j hold]
      intro hsame
      exact hne (hinv.eq_key hold hjob hsame).1
  · rcases getElem?_set_cases hj with ⟨-, rfl⟩ | ⟨-, hold⟩
    · exact htimed
    · exact h.timed k j hold
  · have hne : id ≠ job.jobId := by
      rintro rfl
      exact habsent key job' (getElem?_set_self ..) hid
    rw [currentLease_snoc, hother id hne]
    refine h.absent id fun k j hj hjid => ?_
    have hk : k ≠ key := by
      rintro rfl
      rw [hjob] at hj
      obtain rfl := Option.some.inj hj
      exact hne hjid.symm
    exact habsent k j ((getElem?_set_of_ne job' hk).trans hj) hjid

/-- A new job. -/
theorem enqueued (h : Shows trace catalog) (hinv : catalog.Inv) {kind : JobKind}
    {target key : String} (hnew : catalog.jobs[key]? = none)
    (hlease : ∀ id current, leaseAfter id current label = current) :
    Shows (trace ++ [label]) (catalog.set key (.new kind target key)) := by
  have hcurrent : ∀ id, currentLease (trace ++ [label]) id = currentLease trace id :=
    fun id => (currentLease_snoc ..).trans (hlease id _)
  refine ⟨fun k j hj => ?_, fun k j hj => ?_, fun id hid => ?_⟩
  · rw [hcurrent]
    rcases getElem?_set_cases hj with ⟨-, rfl⟩ | ⟨-, hold⟩
    · exact h.absent _ (hinv.jobId_ne hnew)
    · exact h.lease k j hold
  · rcases getElem?_set_cases hj with ⟨-, rfl⟩ | ⟨-, hold⟩
    · exact fun hstatus => by cases hstatus
    · exact h.timed k j hold
  · rw [hcurrent]
    refine h.absent id fun k j hj => hid k j ?_
    have hk : k ≠ key := by
      rintro rfl
      rw [hnew] at hj
      cases hj
    exact (getElem?_set_of_ne _ hk).trans hj

/-- **Every call keeps it.** -/
theorem step (h : Shows trace catalog) (hinv : catalog.Inv)
    (hstep : JobStep catalog label catalog') :
    Shows (trace ++ [label]) catalog' := by
  obtain ⟨call, out⟩ := label
  cases call with
  | enqueue kind target key =>
    obtain ⟨rfl, rfl⟩ := Prod.mk.inj hstep
    simp only [TraceJob.new]
    cases hfound : catalog.jobs[key]? with
    | some existing => exact h.quiet fun _ _ => rfl
    | none => exact h.enqueued hinv hfound fun _ _ => rfl
  | leaseNextAt workerId kind nowMs leaseMs =>
    rcases catalog.leaseNextAt_cases workerId kind nowMs leaseMs with
      hnone | ⟨key, job, hjob, -, -, hsome⟩
    · simp only [JobStep, call, hnone] at hstep
      obtain ⟨rfl, rfl⟩ := Prod.mk.inj hstep
      exact h.quiet fun _ _ => rfl
    · simp only [JobStep, call, hsome] at hstep
      obtain ⟨rfl, rfl⟩ := Prod.mk.inj hstep
      exact h.set hinv hjob rfl (fun _ => Option.some_ne_none _) (if_pos rfl)
        fun id hid _ => if_neg (Ne.symm hid)
  | heartbeat jobId token nowMs leaseMs =>
    simp only [JobStep, call, heartbeat_eq] at hstep
    rcases attempt_changing hstep with ⟨e, rfl, rfl⟩ | ⟨key, job, hjob, rfl, -, rfl, rfl⟩
    · exact h.quiet fun _ _ => rfl
    · refine h.set hinv hjob rfl (fun _ => Option.some_ne_none _) ?_
        fun id hid _ => if_neg (Ne.symm hid)
      refine (if_pos rfl).trans ?_
      by_cases hstatus : job.status = .leased
      · obtain ⟨expiry, hexpiry⟩ := Option.ne_none_iff_exists'.1 (h.timed key job hjob hstatus)
        rw [TraceJob.extended_status, if_pos hstatus, if_pos hstatus, hexpiry]
        rfl
      · rw [TraceJob.extended_status, if_neg hstatus, if_neg hstatus]
        rfl
  | complete jobId token =>
    simp only [JobStep, call, complete_eq] at hstep
    rcases attempt_changing hstep with ⟨e, rfl, rfl⟩ | ⟨key, job, hjob, rfl, -, rfl, rfl⟩
    · exact h.quiet fun _ _ => rfl
    · exact h.set hinv hjob rfl (fun hstatus => by cases hstatus) (if_pos rfl)
        fun id hid _ => if_neg (Ne.symm hid)
  | fail jobId token error permanent nextAttemptAfterMs =>
    simp only [JobStep, call, fail_eq] at hstep
    rcases attempt_changing hstep with ⟨e, rfl, rfl⟩ | ⟨key, job, hjob, rfl, -, rfl, rfl⟩
    · exact h.quiet fun _ _ => rfl
    · have hstatus := job.failed_status_ne error permanent nextAttemptAfterMs
      exact h.set hinv hjob rfl (fun hleased => absurd hleased hstatus)
        ((if_pos rfl).trans (if_neg hstatus).symm) fun id hid _ => if_neg (Ne.symm hid)

/-- A job that is leased was not leased, or its lease was over. -/
theorem lease_over (h : Shows trace catalog) {workerId : String} {kind : JobKind}
    {nowMs leaseMs : ℕ} {job : TraceJob} {catalog' : JobCatalog}
    (hstep : JobStep catalog (.leaseNextAt workerId kind nowMs leaseMs, .ok (some job)) catalog')
    {expiry : ℕ} (hlease : currentLease trace job.jobId = some expiry) : expiry ≤ nowMs := by
  rcases catalog.leaseNextAt_cases workerId kind nowMs leaseMs with
    hnone | ⟨key, found, hfound, -, hleasable, hsome⟩
  · simp only [JobStep, call, hnone] at hstep
    cases (Prod.mk.inj hstep).1
  · simp only [JobStep, call, hsome] at hstep
    obtain rfl := Option.some.inj (Except.ok.inj (Prod.mk.inj hstep).1)
    rw [show (found.leaseAt workerId nowMs leaseMs).jobId = found.jobId from rfl,
      h.lease key found hfound] at hlease
    split_ifs at hlease with hstatus
    simpa [jobIsLeasable, hstatus, hlease] using hleasable

end Shows

namespace Tracks

variable {trace : List JobLabel} {catalog catalog' : JobCatalog} {label : JobLabel}

theorem start : Tracks [] empty := by
  have hnone : ∀ (key : String) (job : TraceJob), empty.jobs[key]? ≠ some job := by
    intro key job h
    simp [empty] at h
  refine ⟨.start, inv_empty, fun _ _ h => absurd h List.not_mem_nil, ?_, ?_,
    fun _ => List.nodup_nil⟩
  · exact fun key job h => absurd h (hnone key job)
  · exact fun key job h => absurd h (hnone key job)

/-- No token has been issued for a job that is not in the catalog. -/
theorem issuedFor_absent (h : Tracks trace catalog) {id : String}
    (habsent : ∀ (key : String) (job : TraceJob), catalog.jobs[key]? = some job → job.jobId ≠ id) :
    issuedFor trace id = [] := by
  rw [issuedFor, List.map_eq_nil_iff, List.filter_eq_nil_iff]
  rintro ⟨id', token⟩ hmem hid
  obtain ⟨⟨key, job, hjob, hjobId⟩, -⟩ := h.named id' token hmem
  exact habsent key job hjob (hjobId.trans (of_decide_eq_true hid))

/-- A call that issues no token, and changes at most the lease of one job. -/
theorem updated (h : Tracks trace catalog) {key : String} {job job' : TraceJob}
    (hshows : Shows (trace ++ [label]) (catalog.set key job'))
    (hjob : catalog.jobs[key]? = some job) (hkey : job'.idempotencyKey = job.idempotencyKey)
    (hid : job'.jobId = job.jobId) (hkind : job'.kind = job.kind)
    (hattempts : job'.attempts = job.attempts) (htoken : job'.leaseToken = job.leaseToken)
    (hissue : issue label = none) : Tracks (trace ++ [label]) (catalog.set key job') := by
  have hissued := issued_snoc_of_none trace hissue
  have hfor := issuedFor_congr hissued
  refine ⟨hshows, h.inv.set hjob hkey hid hkind, ?_, ?_, ?_, ?_⟩
  · intro id token hmem
    rw [hissued] at hmem
    rw [hfor]
    obtain ⟨⟨k, j, hj, hjid⟩, hn⟩ := h.named id token hmem
    refine ⟨?_, hn⟩
    by_cases hk : k = key
    · subst hk
      rw [hjob] at hj
      obtain rfl := Option.some.inj hj
      exact ⟨k, job', getElem?_set_self .., hid.trans hjid⟩
    · exact ⟨k, j, (getElem?_set_of_ne job' hk).trans hj, hjid⟩
  · intro k j hj
    rw [hfor]
    rcases getElem?_set_cases hj with ⟨-, rfl⟩ | ⟨-, hold⟩
    · rw [hattempts, hid]
      exact h.attempts key job hjob
    · exact h.attempts k j hold
  · intro k j hj
    rw [hfor]
    rcases getElem?_set_cases hj with ⟨-, rfl⟩ | ⟨-, hold⟩
    · rw [htoken, hid]
      exact h.token key job hjob
    · exact h.token k j hold
  · rw [hissued]
    intro hfew
    refine h.distinct fun id => ?_
    rw [← hfor]
    exact hfew id

/-- A call that issues no token and changes nothing. -/
theorem quiet (h : Tracks trace catalog) (hshows : Shows (trace ++ [label]) catalog)
    (hissue : issue label = none) : Tracks (trace ++ [label]) catalog := by
  have hissued := issued_snoc_of_none trace hissue
  have hfor := issuedFor_congr hissued
  refine ⟨hshows, h.inv, ?_, ?_, ?_, ?_⟩
  · simp only [hissued, hfor]
    exact h.named
  · simp only [hfor]
    exact h.attempts
  · simp only [hfor]
    exact h.token
  · simp only [hissued, hfor]
    exact h.distinct

/-- A new job. -/
theorem enqueued (h : Tracks trace catalog) {kind : JobKind} {target key : String}
    (hshows : Shows (trace ++ [label]) (catalog.set key (.new kind target key)))
    (hnew : catalog.jobs[key]? = none) (hinv : (catalog.set key (.new kind target key)).Inv)
    (hissue : issue label = none) :
    Tracks (trace ++ [label]) (catalog.set key (.new kind target key)) := by
  have hissued := issued_snoc_of_none trace hissue
  have hfor := issuedFor_congr hissued
  have hnone : issuedFor trace (TraceJob.new kind target key).jobId = [] :=
    h.issuedFor_absent (h.inv.jobId_ne hnew)
  refine ⟨hshows, hinv, ?_, ?_, ?_, ?_⟩
  · simp only [hissued, hfor]
    intro id token hmem
    obtain ⟨⟨k, j, hj, hjid⟩, hn⟩ := h.named id token hmem
    have hk : k ≠ key := by
      rintro rfl
      rw [hnew] at hj
      cases hj
    exact ⟨⟨k, j, (getElem?_set_of_ne _ hk).trans hj, hjid⟩, hn⟩
  · intro k j hj
    rw [hfor]
    rcases getElem?_set_cases hj with ⟨-, rfl⟩ | ⟨-, hold⟩
    · rw [hnone]
      rfl
    · exact h.attempts k j hold
  · intro k j hj
    rw [hfor]
    rcases getElem?_set_cases hj with ⟨-, rfl⟩ | ⟨-, hold⟩
    · rw [hnone]
      rfl
    · exact h.token k j hold
  · simp only [hissued, hfor]
    exact h.distinct

/-- The tokens of a job after a lease. -/
theorem issuedFor_leased {job : TraceJob} (trace : List JobLabel)
    (hissue : issue label = some (job.jobId, leaseTokenOf job.jobId (job.attempts + 1)))
    (id : String) :
    issuedFor (trace ++ [label]) id = issuedFor trace id ++
      if id = job.jobId then [leaseTokenOf job.jobId (job.attempts + 1)] else [] := by
  rw [issuedFor, issued_snoc, hissue, List.filter_append, List.map_append, issuedFor]
  congr 1
  by_cases hid : id = job.jobId
  · subst hid
    simp
  · simp [hid, Ne.symm hid]

/-- A job is leased. -/
theorem leased (h : Tracks trace catalog) {key : String} {job : TraceJob} {workerId : String}
    {nowMs leaseMs : ℕ}
    (hshows : Shows (trace ++ [label]) (catalog.set key (job.leaseAt workerId nowMs leaseMs)))
    (hjob : catalog.jobs[key]? = some job)
    (hissue : issue label = some (job.jobId, leaseTokenOf job.jobId (job.attempts + 1))) :
    Tracks (trace ++ [label]) (catalog.set key (job.leaseAt workerId nowMs leaseMs)) := by
  have hself : issuedFor (trace ++ [label]) job.jobId =
      issuedFor trace job.jobId ++ [leaseTokenOf job.jobId (job.attempts + 1)] := by
    rw [issuedFor_leased trace hissue, if_pos rfl]
  have hne : ∀ id, id ≠ job.jobId → issuedFor (trace ++ [label]) id = issuedFor trace id := by
    intro id hid
    rw [issuedFor_leased trace hissue, if_neg hid, List.append_nil]
  have hle : ∀ id, (issuedFor trace id).length ≤ (issuedFor (trace ++ [label]) id).length := by
    intro id
    rw [issuedFor_leased trace hissue, List.length_append]
    exact Nat.le_add_right ..
  have hnext : job.attempts + 1 = .ofNat ((issuedFor trace job.jobId).length + 1) := by
    rw [h.attempts key job hjob, UInt32.ofNat_add]
    rfl
  have hapart : ∀ (k : String) (j : TraceJob), k ≠ key → catalog.jobs[k]? = some j →
      j.jobId ≠ job.jobId :=
    fun k j hk hj hid => hk (h.inv.eq_key hj hjob hid).1
  refine ⟨hshows, h.inv.set hjob rfl rfl rfl, ?_, ?_, ?_, ?_⟩
  · intro id token hmem
    rw [issued_snoc, hissue, List.mem_append] at hmem
    rcases hmem with hold | hnew
    · obtain ⟨⟨k, j, hj, hjid⟩, n, hpos, hn, htoken⟩ := h.named id token hold
      refine ⟨?_, n, hpos, hn.trans (hle id), htoken⟩
      by_cases hk : k = key
      · subst hk
        rw [hjob] at hj
        obtain rfl := Option.some.inj hj
        exact ⟨k, _, getElem?_set_self .., hjid⟩
      · exact ⟨k, j, (getElem?_set_of_ne _ hk).trans hj, hjid⟩
    · obtain ⟨rfl, rfl⟩ := Prod.mk.inj (List.mem_singleton.1 hnew)
      refine ⟨⟨key, _, getElem?_set_self .., rfl⟩, _, Nat.succ_pos _, ?_, by rw [hnext]⟩
      rw [hself, List.length_append]
      exact le_rfl
  · intro k j hj
    rcases getElem?_set_cases hj with ⟨-, rfl⟩ | ⟨hk, hold⟩
    · show job.attempts + 1 = _
      rw [show (job.leaseAt workerId nowMs leaseMs).jobId = job.jobId from rfl, hself,
        List.length_append, hnext]
      rfl
    · rw [hne _ (hapart k j hk hold)]
      exact h.attempts k j hold
  · intro k j hj
    rcases getElem?_set_cases hj with ⟨-, rfl⟩ | ⟨hk, hold⟩
    · rw [show (job.leaseAt workerId nowMs leaseMs).jobId = job.jobId from rfl, hself,
        List.getLast?_concat]
      rfl
    · rw [hne _ (hapart k j hk hold)]
      exact h.token k j hold
  · intro hfew
    rw [issued_snoc, hissue, List.map_append, List.nodup_append]
    refine ⟨h.distinct fun id => (hle id).trans_lt (hfew id),
      List.nodup_cons.2 ⟨List.not_mem_nil, List.nodup_nil⟩, ?_⟩
    -- A token that was issued before names another job, or an earlier attempt.
    rintro token hold token' hnew rfl
    obtain ⟨⟨id, _⟩, hmem, rfl⟩ := List.mem_map.1 hold
    obtain ⟨-, n, -, hn, htoken⟩ := h.named _ _ hmem
    have hsame := (List.mem_singleton.1 hnew).symm.trans htoken
    rw [hnext] at hsame
    obtain ⟨rfl, hattempt⟩ := leaseTokenOf_inj hsame
    have hbound := hfew job.jobId
    rw [hself, List.length_append, List.length_singleton] at hbound
    have hcount := congrArg UInt32.toNat hattempt
    have hn' : n < 2 ^ 32 := by omega
    rw [UInt32.toNat_ofNat_of_lt' hbound, UInt32.toNat_ofNat_of_lt' hn'] at hcount
    omega

/-- **Every call keeps it.** -/
theorem step (h : Tracks trace catalog) (hstep : JobStep catalog label catalog') :
    Tracks (trace ++ [label]) catalog' := by
  have hshows := h.toShows.step h.inv hstep
  obtain ⟨call, out⟩ := label
  cases call with
  | enqueue kind target key =>
    have hinv := (applyEvent_enqueue h.inv kind target key).2
    obtain ⟨rfl, rfl⟩ := Prod.mk.inj hstep
    simp only [enqueue, orInsert, TraceJob.new] at hinv hshows ⊢
    cases hfound : catalog.jobs[key]? with
    | some existing =>
      simp only [hfound] at hshows ⊢
      exact h.quiet hshows rfl
    | none =>
      simp only [hfound] at hinv hshows ⊢
      exact h.enqueued hshows hfound hinv rfl
  | leaseNextAt workerId kind nowMs leaseMs =>
    rcases catalog.leaseNextAt_cases workerId kind nowMs leaseMs with
      hnone | ⟨key, job, hjob, -, -, hsome⟩
    · simp only [JobStep, call, hnone] at hstep
      obtain ⟨rfl, rfl⟩ := Prod.mk.inj hstep
      exact h.quiet hshows rfl
    · simp only [JobStep, call, hsome] at hstep
      obtain ⟨rfl, rfl⟩ := Prod.mk.inj hstep
      exact h.leased hshows hjob rfl
  | heartbeat jobId token nowMs leaseMs =>
    simp only [JobStep, call, heartbeat_eq] at hstep
    rcases attempt_changing hstep with ⟨e, rfl, rfl⟩ | ⟨key, job, hjob, rfl, -, rfl, rfl⟩
    · exact h.quiet hshows rfl
    · exact h.updated hshows hjob rfl rfl rfl rfl rfl rfl
  | complete jobId token =>
    simp only [JobStep, call, complete_eq] at hstep
    rcases attempt_changing hstep with ⟨e, rfl, rfl⟩ | ⟨key, job, hjob, rfl, -, rfl, rfl⟩
    · exact h.quiet hshows rfl
    · exact h.updated hshows hjob rfl rfl rfl rfl rfl rfl
  | fail jobId token error permanent nextAttemptAfterMs =>
    simp only [JobStep, call, fail_eq] at hstep
    rcases attempt_changing hstep with ⟨e, rfl, rfl⟩ | ⟨key, job, hjob, rfl, -, rfl, rfl⟩
    · exact h.quiet hshows rfl
    · exact h.updated hshows hjob rfl rfl rfl rfl rfl rfl

/-- A token other than the last one of a job opens nothing. -/
theorem rejects (h : Tracks trace catalog) {jobId token : String}
    (htoken : (issuedFor trace jobId).getLast? ≠ some token) (change : TraceJob → TraceJob) :
    ∃ e, catalog.attempt (catalog.changing jobId (some token) change) = (.error e, catalog) := by
  obtain ⟨out, catalog', hstep⟩ : ∃ out catalog', catalog.attempt
      (catalog.changing jobId (some token) change) = (out, catalog') := ⟨_, _, rfl⟩
  rcases attempt_changing hstep with ⟨e, rfl, rfl⟩ | ⟨key, job, hjob, rfl, hshown, -, -⟩
  · exact ⟨e, hstep⟩
  · rw [h.token key job hjob] at hshown
    exact absurd (hshown token rfl) htoken

end Tracks

end JobCatalog

/-- **Leases are exclusive.**  In every run of a catalog in which no job is leased `2 ^ 32` times,
all tokens are different; a token other than the last one issued for the job is refused, and nothing
changes; and a job that is leased was not under a lease that still lasts. -/
theorem lease_exclusive {trace : List JobLabel} {catalog : JobCatalog}
    (h : Runs JobStep (fun _ _ => True) .empty trace catalog)
    (hfew : ∀ id, (issuedFor trace id).length < 2 ^ 32) :
    ((issued trace).map (·.2)).Nodup ∧
      (∀ jobId token, (issuedFor trace jobId).getLast? ≠ some token →
        (∀ nowMs leaseMs, ∃ e, catalog.call (.heartbeat jobId token nowMs leaseMs) =
          (.error e, catalog)) ∧
        (∃ e, catalog.call (.complete jobId (some token)) = (.error e, catalog)) ∧
        ∀ error permanent nextAttemptAfterMs, ∃ e,
          catalog.call (.fail jobId (some token) error permanent nextAttemptAfterMs) =
            (.error e, catalog)) ∧
      ∀ workerId kind nowMs leaseMs job catalog',
        catalog.call (.leaseNextAt workerId kind nowMs leaseMs) = (.ok (some job), catalog') →
          ∀ expiry, currentLease trace job.jobId = some expiry → expiry ≤ nowMs := by
  have htracks : JobCatalog.Tracks trace catalog :=
    h.invariant .start fun _ _ _ _ _ hstep hs => hs.step hstep
  refine ⟨htracks.distinct hfew, fun jobId token htoken => ⟨?_, ?_, ?_⟩, ?_⟩
  · exact fun nowMs leaseMs => htracks.rejects htoken fun job => job.extended nowMs leaseMs
  · exact htracks.rejects htoken TraceJob.completed
  · exact fun error permanent nextAttemptAfterMs =>
      htracks.rejects htoken fun job => job.failed error permanent nextAttemptAfterMs
  · exact fun workerId kind nowMs leaseMs job catalog' hcall expiry =>
      htracks.toShows.lease_over hcall

/-- The run of a list of calls. -/
def JobCatalog.callAll (catalog : JobCatalog) : List JobCall → List JobLabel × JobCatalog
  | [] => ([], catalog)
  | call :: calls =>
    let (out, catalog') := catalog.call call
    let (labels, last) := catalog'.callAll calls
    ((call, out) :: labels, last)

theorem JobCatalog.runs_callAll {start catalog : JobCatalog} {trace : List JobLabel}
    (h : Runs JobStep (fun _ _ => True) start trace catalog) (calls : List JobCall) :
    Runs JobStep (fun _ _ => True) start (trace ++ (catalog.callAll calls).1)
      (catalog.callAll calls).2 := by
  induction calls generalizing catalog trace with
  | nil =>
    rw [callAll, List.append_nil]
    exact h
  | cons call calls ih =>
    have hcall := @Runs.step _ _ _ _ _ _ _ _ (call, (catalog.call call).1) h trivial rfl
    have hnext := ih hcall
    rw [List.append_assoc] at hnext
    exact hnext

/-- A worker whose lease runs out, and the worker after it. -/
def handover : List JobCall :=
  [.enqueue .verifyDatabase "docs" "nightly", .leaseNextAt "a" .verifyDatabase 0 10,
    .leaseNextAt "b" .verifyDatabase 10 10]

theorem lease_exclusive_handover :
    let run := JobCatalog.empty.callAll handover
    issued run.1 = [("job:verify_database:nightly", "lease:job:verify_database:nightly:1"),
      ("job:verify_database:nightly", "lease:job:verify_database:nightly:2")] ∧
    ((issued run.1).map (·.2)).Nodup ∧
    ∃ e, run.2.call (.complete "job:verify_database:nightly"
      (some "lease:job:verify_database:nightly:1")) = (.error e, run.2) := by
  intro run
  have hissued : issued run.1 =
      [("job:verify_database:nightly", "lease:job:verify_database:nightly:1"),
        ("job:verify_database:nightly", "lease:job:verify_database:nightly:2")] := by decide +kernel
  have hfew : ∀ id, (issuedFor run.1 id).length < 2 ^ 32 := by
    intro id
    rw [issuedFor, List.length_map, hissued]
    exact (List.length_filter_le _ _).trans_lt (by decide)
  have h := lease_exclusive (JobCatalog.runs_callAll .start handover) hfew
  refine ⟨hissued, h.1, (h.2.1 _ _ ?_).2.1⟩
  rw [List.nil_append, issuedFor, hissued]
  decide

end TraceDB
