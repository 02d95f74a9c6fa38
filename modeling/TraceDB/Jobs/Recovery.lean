import TraceDB.Jobs.Leases

/-!
# Replaying a log over its own result

The job runtime keeps its catalog twice, as a checkpoint and as the log of all events, and opening
it replays the whole log on top of the checkpoint.  Each event says what to write into a job, with
one exception: the event of a lease adds one to the attempts.

* `JobCatalog.Emits` : the events that a catalog can log, with the catalog after each.
* `Between` : a job in the middle of the second replay.  Each of its fields is that of the
  checkpoint, or that of the job in the first replay; the attempts are the sum of the two.
* `JobCatalog.replay_again` : the second replay never fails, and doubles the attempts.
* `JobCatalog.replay_again_eq_iff` : it changes nothing just when no job has an attempt.
-/

namespace TraceDB

/-! ### Events as changes of one job -/

namespace JobEvent

/-- The job an event is about. -/
def jobId : JobEvent → String
  | .enqueued job => job.jobId
  | .leased jobId _ _ _ | .heartbeat jobId _ _ | .completed jobId _ | .failed jobId _ _ _ _ => jobId

/-- The token an event has to show. -/
def shown : JobEvent → Option String
  | .enqueued _ | .leased _ _ _ _ => none
  | .heartbeat _ leaseToken _ | .completed _ leaseToken => some leaseToken
  | .failed _ leaseToken _ _ _ => leaseToken

/-- What an event does to its job. -/
def change : JobEvent → TraceJob → TraceJob
  | .enqueued _, job => job
  | .leased _ workerId leaseToken leaseExpiresAtMs, job => { job with
      leaseOwner := some workerId
      leaseToken := some leaseToken
      leaseExpiresAtMs := some leaseExpiresAtMs
      nextAttemptAfterMs := none
      attempts := job.attempts + 1
      status := .leased }
  | .heartbeat _ _ leaseExpiresAtMs, job => { job with leaseExpiresAtMs := some leaseExpiresAtMs }
  | .completed _ _, job => job.completed
  | .failed _ _ error permanent nextAttemptAfterMs,
      job => job.failed error permanent nextAttemptAfterMs

/-- An event that adds a job. -/
def isEnqueued : JobEvent → Bool
  | .enqueued _ => true
  | _ => false

end JobEvent

/-- The fields of a job that no event writes. -/
structure TraceJob.SameJob (t u : TraceJob) : Prop where
  jobId : u.jobId = t.jobId
  kind : u.kind = t.kind
  target : u.target = t.target
  idempotencyKey : u.idempotencyKey = t.idempotencyKey
  maxAttempts : u.maxAttempts = t.maxAttempts
  artifactPath : u.artifactPath = t.artifactPath
  artifactChecksum : u.artifactChecksum = t.artifactChecksum

theorem TraceJob.SameJob.refl (t : TraceJob) : t.SameJob t := ⟨rfl, rfl, rfl, rfl, rfl, rfl, rfl⟩

theorem TraceJob.SameJob.trans {t u v : TraceJob} (h : t.SameJob u) (h' : u.SameJob v) :
    t.SameJob v where
  jobId := h'.jobId.trans h.jobId
  kind := h'.kind.trans h.kind
  target := h'.target.trans h.target
  idempotencyKey := h'.idempotencyKey.trans h.idempotencyKey
  maxAttempts := h'.maxAttempts.trans h.maxAttempts
  artifactPath := h'.artifactPath.trans h.artifactPath
  artifactChecksum := h'.artifactChecksum.trans h.artifactChecksum

theorem TraceJob.SameJob.change (t : TraceJob) (event : JobEvent) : t.SameJob (event.change t) := by
  cases event <;> exact ⟨rfl, rfl, rfl, rfl, rfl, rfl, rfl⟩

/-! ### One job in two replays -/

/-- The job `u` of the second replay lies between the job `s` of the checkpoint and the job `t` of
the first replay. -/
structure Between (s t u : TraceJob) : Prop extends t.SameJob u where
  attempts : u.attempts = t.attempts + s.attempts
  leaseToken : u.leaseToken = t.leaseToken ∨ (t.leaseToken = none ∧ u.leaseToken = s.leaseToken)
  leaseOwner : u.leaseOwner = t.leaseOwner ∨ u.leaseOwner = s.leaseOwner
  leaseExpiresAtMs : u.leaseExpiresAtMs = t.leaseExpiresAtMs ∨
    u.leaseExpiresAtMs = s.leaseExpiresAtMs
  nextAttemptAfterMs :
    u.nextAttemptAfterMs = t.nextAttemptAfterMs ∨ u.nextAttemptAfterMs = s.nextAttemptAfterMs
  lastError : u.lastError = t.lastError ∨ u.lastError = s.lastError
  /-- Whether a failed job is given up depends on its attempts. -/
  status : s.attempts = 0 → u.status = t.status ∨ u.status = s.status

namespace Between

variable {s t u : TraceJob}

/-- The second replay of a job starts from the checkpoint. -/
theorem start {kind : JobKind} {target key : String}
    (h : (TraceJob.new kind target key).SameJob s) : Between s (.new kind target key) s where
  toSameJob := h
  attempts := (UInt32.zero_add _).symm
  leaseToken := .inr ⟨rfl, rfl⟩
  leaseOwner := .inr rfl
  leaseExpiresAtMs := .inr rfl
  nextAttemptAfterMs := .inr rfl
  lastError := .inr rfl
  status _ := .inr rfl

/-- An event writes the same into both jobs. -/
theorem change (h : Between s t u) (event : JobEvent) :
    Between s (event.change t) (event.change u) := by
  have hsame : (event.change t).SameJob (event.change u) := by
    obtain ⟨⟨h₁, h₂, h₃, h₄, h₅, h₆, h₇⟩, -⟩ := h
    cases event <;> exact ⟨h₁, h₂, h₃, h₄, h₅, h₆, h₇⟩
  cases event with
  | enqueued job => exact h
  | leased jobId workerId leaseToken leaseExpiresAtMs =>
    refine ⟨hsame, ?_, .inl rfl, .inl rfl, .inl rfl, .inl rfl, h.lastError,
      fun _ => .inl rfl⟩
    show u.attempts + 1 = t.attempts + 1 + s.attempts
    rw [h.attempts, UInt32.add_assoc, UInt32.add_comm s.attempts, UInt32.add_assoc]
  | heartbeat jobId leaseToken leaseExpiresAtMs =>
    exact ⟨hsame, h.attempts, h.leaseToken, h.leaseOwner, .inl rfl,
      h.nextAttemptAfterMs, h.lastError, h.status⟩
  | completed jobId leaseToken =>
    exact ⟨hsame, h.attempts, h.leaseToken, h.leaseOwner, .inl rfl, .inl rfl, h.lastError,
      fun _ => .inl rfl⟩
  | failed jobId leaseToken error permanent nextAttemptAfterMs =>
    refine ⟨hsame, h.attempts, h.leaseToken, h.leaseOwner, .inl rfl, .inl rfl, .inl rfl,
      fun hzero => ?_⟩
    left
    have hattempts : u.attempts = t.attempts := by
      rw [h.attempts, hzero, UInt32.add_zero]
    show (u.failed error permanent nextAttemptAfterMs).status = _
    rw [JobEvent.change, TraceJob.failed, TraceJob.failed, hattempts, h.maxAttempts]

/-- A token that opens the job in the first replay opens it in the second. -/
theorem token (h : Between s t u) {token : String} (ht : t.leaseToken = some token) :
    u.leaseToken = some token := by
  rcases h.leaseToken with hsame | ⟨hnone, -⟩
  · exact hsame.trans ht
  · rw [hnone] at ht
    cases ht

/-- At the end of the first replay there is nothing left but the attempts. -/
theorem eq_of_zero (h : Between s s u) (hzero : s.attempts = 0) : u = s := by
  obtain ⟨⟨h₁, h₂, h₃, h₄, h₅, h₆, h₇⟩, hattempts, htoken, howner, hexpires, hnext,
      herror, hstatus⟩ :=
    h
  rw [hzero, UInt32.add_zero] at hattempts
  replace htoken : u.leaseToken = s.leaseToken := htoken.elim id And.right
  replace hstatus : u.status = s.status := (hstatus hzero).elim id id
  replace howner : u.leaseOwner = s.leaseOwner := howner.elim id id
  replace hexpires : u.leaseExpiresAtMs = s.leaseExpiresAtMs := hexpires.elim id id
  replace hnext : u.nextAttemptAfterMs = s.nextAttemptAfterMs := hnext.elim id id
  replace herror : u.lastError = s.lastError := herror.elim id id
  cases u
  cases s
  simp_all only

end Between

/-! ### The whole catalog -/

namespace JobCatalog

/-- The events that a catalog logs, and the catalog after each. -/
inductive Emits (catalog : JobCatalog) : JobEvent → JobCatalog → Prop
  /-- The job is there already. -/
  | known {job existing : TraceJob} : catalog.jobs[job.idempotencyKey]? = some existing →
      Emits catalog (.enqueued job) catalog
  | new (kind : JobKind) (target : String) {key : String} : catalog.jobs[key]? = none →
      Emits catalog (.enqueued (.new kind target key)) (catalog.set key (.new kind target key))
  | change {event : JobEvent} {key : String} {job : TraceJob} : event.isEnqueued = false →
      catalog.jobs[key]? = some job → job.jobId = event.jobId →
      (∀ token, event.shown = some token → job.leaseToken = some token) →
      Emits catalog event (catalog.set key (event.change job))

variable {catalog catalog' : JobCatalog}

/-- An event that changes a job, applied to a catalog that has the job under the token. -/
theorem Inv.applyEvent_change (hinv : catalog.Inv) {event : JobEvent} {key : String}
    {job : TraceJob} (hevent : event.isEnqueued = false) (hjob : catalog.jobs[key]? = some job)
    (hid : job.jobId = event.jobId)
    (htoken : ∀ token, event.shown = some token → job.leaseToken = some token) :
    catalog.applyEvent event = .ok (catalog.set key (event.change job)) := by
  have hfind := hinv.keyForJobId_eq hjob
  have hmut : catalog.jobMutForToken job.jobId event.shown = .ok (key, job) := by
    rw [jobMutForToken, hfind]
    cases hshown : event.shown with
    | none => rfl
    | some token => exact if_neg (not_not.2 (htoken token hshown))
  rw [hid] at hfind hmut
  cases event with
  | enqueued => cases hevent
  | leased jobId workerId leaseToken leaseExpiresAtMs =>
    simp only [applyEvent, show catalog.keyForJobId jobId = _ from hfind]
    rfl
  | heartbeat jobId leaseToken leaseExpiresAtMs =>
    simp only [applyEvent, show catalog.jobMutForToken jobId (some leaseToken) = _ from hmut,
      Except.ok_bind]
    rfl
  | completed jobId leaseToken =>
    simp only [applyEvent, complete_eq, changing,
      show catalog.jobMutForToken jobId (some leaseToken) = _ from hmut, Except.ok_bind]
    rfl
  | failed jobId leaseToken error permanent nextAttemptAfterMs =>
    simp only [applyEvent, fail_eq, changing,
      show catalog.jobMutForToken jobId leaseToken = _ from hmut, Except.ok_bind]
    rfl

theorem Inv.emits (hinv : catalog.Inv) {event : JobEvent} (h : catalog.Emits event catalog') :
    catalog'.Inv := by
  cases h with
  | known => exact hinv
  | new kind target hnone =>
    intro k j hj
    rcases getElem?_set_cases hj with ⟨rfl, rfl⟩ | ⟨-, hold⟩
    · exact ⟨rfl, rfl⟩
    · exact hinv k j hold
  | @change event key job _ hjob _ _ =>
    have hsame := TraceJob.SameJob.change job event
    exact hinv.set hjob hsame.idempotencyKey hsame.jobId hsame.kind

/-- A later catalog has the jobs of an earlier one. -/
def Extends (catalog later : JobCatalog) : Prop :=
  ∀ (key : String) (job : TraceJob), catalog.jobs[key]? = some job →
    ∃ job', later.jobs[key]? = some job' ∧ job.SameJob job'

theorem Extends.refl (catalog : JobCatalog) : catalog.Extends catalog :=
  fun _ job hjob => ⟨job, hjob, .refl job⟩

theorem Extends.trans {later : JobCatalog} (h : catalog.Extends catalog')
    (h' : catalog'.Extends later) : catalog.Extends later := by
  intro key job hjob
  obtain ⟨job', hjob', hsame⟩ := h key job hjob
  obtain ⟨job'', hjob'', hsame'⟩ := h' key job' hjob'
  exact ⟨job'', hjob'', hsame.trans hsame'⟩

theorem Extends.of_emits {event : JobEvent} (h : catalog.Emits event catalog') {later : JobCatalog}
    (hlater : catalog'.Extends later) : catalog.Extends later := by
  intro k j hj
  cases h with
  | known => exact hlater k j hj
  | @new kind target key hnone =>
    have hne : k ≠ key := by
      rintro rfl
      rw [hnone] at hj
      cases hj
    exact hlater k j ((getElem?_set_of_ne _ hne).trans hj)
  | @change event key job _ hjob _ _ =>
    by_cases hk : k = key
    · subst hk
      rw [hjob] at hj
      obtain rfl := Option.some.inj hj
      obtain ⟨job', hjob', hsame⟩ := hlater k _ (getElem?_set_self ..)
      exact ⟨job', hjob', (TraceJob.SameJob.change job event).trans hsame⟩
    · exact hlater k j ((getElem?_set_of_ne _ hk).trans hj)

/-- The two replays, over the checkpoint `saved`: the jobs that the first has met are between, the
others are as in the checkpoint. -/
structure Lockstep (saved first second : JobCatalog) : Prop where
  inv : second.Inv
  met : ∀ (key : String) (t : TraceJob), first.jobs[key]? = some t →
    ∃ s u, saved.jobs[key]? = some s ∧ second.jobs[key]? = some u ∧ Between s t u
  unmet : ∀ key : String, first.jobs[key]? = none → second.jobs[key]? = saved.jobs[key]?

/-- One event of the log, in both replays. -/
theorem Lockstep.step {saved first first' second : JobCatalog} (h : Lockstep saved first second)
    {event : JobEvent} (hemits : first.Emits event first') (hsaved : first'.Extends saved) :
    ∃ second', second.applyEvent event = .ok second' ∧ Lockstep saved first' second' := by
  cases hemits with
  | @known job existing hknown =>
    obtain ⟨-, u, -, hu, -⟩ := h.met _ _ hknown
    refine ⟨second, ?_, h⟩
    simp only [applyEvent, orInsert, hu]
  | @new kind target key hnone =>
    obtain ⟨s, hs, hsame⟩ := hsaved key _ (getElem?_set_self ..)
    have hu : second.jobs[key]? = some s := (h.unmet key hnone).trans hs
    refine ⟨second, ?_, h.inv, ?_, ?_⟩
    · simp only [applyEvent, orInsert, TraceJob.new, hu]
    · intro k t ht
      rcases getElem?_set_cases ht with ⟨rfl, rfl⟩ | ⟨-, hold⟩
      · exact ⟨s, s, hs, hu, .start hsame⟩
      · exact h.met k t hold
    · intro k hk
      have hne : k ≠ key := by
        rintro rfl
        rw [getElem?_set_self] at hk
        cases hk
      exact h.unmet k ((getElem?_set_of_ne _ hne).symm.trans hk)
  | @change event key job hevent hjob hid htoken =>
    obtain ⟨s, u, hs, hu, hbetween⟩ := h.met key job hjob
    have hsame := TraceJob.SameJob.change u event
    refine ⟨second.set key (event.change u), ?_, ?_, ?_, ?_⟩
    · exact h.inv.applyEvent_change hevent hu (hbetween.jobId.trans hid)
        fun token hshown => hbetween.token (htoken token hshown)
    · exact h.inv.set hu hsame.idempotencyKey hsame.jobId hsame.kind
    · intro k t ht
      rcases getElem?_set_cases ht with ⟨rfl, rfl⟩ | ⟨hne, hold⟩
      · exact ⟨s, _, hs, getElem?_set_self .., hbetween.change event⟩
      · obtain ⟨s', u', hs', hu', hb⟩ := h.met k t hold
        exact ⟨s', u', hs', (getElem?_set_of_ne _ hne).trans hu', hb⟩
    · intro k hk
      have hne : k ≠ key := by
        rintro rfl
        rw [getElem?_set_self] at hk
        cases hk
      rw [getElem?_set_of_ne _ hne] at hk ⊢
      exact h.unmet k hk

/-- The log of a run, replayed over a later catalog. -/
theorem lockstep_of_runs {events : List JobEvent}
    (h : Runs Emits (fun _ _ => True) .empty events catalog) {saved : JobCatalog} (hinv : saved.Inv)
    (hsaved : catalog.Extends saved) :
    ∃ second, events.foldlM applyEvent saved = .ok second ∧ Lockstep saved catalog second := by
  induction h with
  | start =>
    refine ⟨saved, rfl, hinv, fun key t ht => ?_, fun _ _ => rfl⟩
    simp [empty] at ht
  | step _ _ hemits ih =>
    obtain ⟨second, hfold, hlock⟩ := ih (hsaved.of_emits hemits)
    obtain ⟨second', happly, hlock'⟩ := hlock.step hemits hsaved
    refine ⟨second', ?_, hlock'⟩
    rw [Except.foldlM_append, hfold, Except.ok_bind, List.foldlM_cons, happly]
    rfl

theorem inv_of_runs {events : List JobEvent}
    (h : Runs Emits (fun _ _ => True) .empty events catalog) : catalog.Inv :=
  h.invariant (I := fun _ catalog => catalog.Inv) inv_empty fun _ _ _ _ _ hemits hinv =>
    hinv.emits hemits

/-- **The log replayed over its own result** never fails; it has the same jobs, and each is as it
was but for its attempts, which count twice. -/
theorem replay_again {events : List JobEvent}
    (h : Runs Emits (fun _ _ => True) .empty events catalog) :
    ∃ second, events.foldlM applyEvent catalog = .ok second ∧
      (∀ key : String, catalog.jobs[key]? = none → second.jobs[key]? = none) ∧
      ∀ (key : String) (s : TraceJob), catalog.jobs[key]? = some s →
        ∃ u, second.jobs[key]? = some u ∧ Between s s u := by
  obtain ⟨second, hfold, hlock⟩ := lockstep_of_runs h (inv_of_runs h) (.refl catalog)
  refine ⟨second, hfold, fun key hkey => (hlock.unmet key hkey).trans hkey, fun key s hs => ?_⟩
  obtain ⟨s', u, hs', hu, hbetween⟩ := hlock.met key s hs
  rw [hs] at hs'
  obtain rfl := Option.some.inj hs'
  exact ⟨u, hu, hbetween⟩

/-- It changes nothing just when no job has an attempt. -/
theorem replay_again_eq_iff {events : List JobEvent}
    (h : Runs Emits (fun _ _ => True) .empty events catalog) :
    events.foldlM applyEvent catalog = .ok catalog ↔
      ∀ (key : String) (job : TraceJob), catalog.jobs[key]? = some job → job.attempts = 0 := by
  obtain ⟨second, hfold, hnone, hsome⟩ := replay_again h
  rw [hfold]
  constructor
  · intro heq key job hjob
    obtain rfl := Except.ok.inj heq
    obtain ⟨u, hu, hbetween⟩ := hsome key job hjob
    rw [hjob] at hu
    obtain rfl := Option.some.inj hu
    exact UInt32.left_eq_add.1 hbetween.attempts
  · intro hzero
    congr 1
    cases second with
    | mk jobs =>
      cases catalog with
      | mk jobs' =>
        congr 1
        refine Std.ExtTreeMap.ext_getElem? fun key => ?_
        cases hkey : jobs'[key]? with
        | none => exact hnone key hkey
        | some s =>
          obtain ⟨u, hu, hbetween⟩ := hsome key s hkey
          rw [← hbetween.eq_of_zero (hzero key s hkey)]
          exact hu

end JobCatalog

end TraceDB
