import TraceDB.Jobs.Statuses

/-!
# Which job an enqueue returns

A job is asked for by its kind and its idempotency key, and its id is made of both.  The catalog
stores jobs by their keys alone, so a key that is used for two kinds of work stands for the job of
the kind that came first.

* `JobCatalog.Recalls` : how the jobs that were returned go together with those that are stored.
* `enqueue_identifies_iff` : every enqueue returns the job that was asked for just when no key is
  used for two kinds.
* `shared_key_drops` : a run in which a job that was asked for is never leased.
-/

namespace TraceDB

/-- An enqueue was called, and returned something. -/
def Enqueued (trace : List JobLabel) (kind : JobKind) (key : String) (out : JobReturn) : Prop :=
  ∃ target, (JobCall.enqueue kind target key, out) ∈ trace

/-- An enqueue is among some calls. -/
def Asked (calls : List JobCall) (kind : JobKind) (key : String) : Prop :=
  ∃ target, JobCall.enqueue kind target key ∈ calls

namespace JobCatalog

/-- A job is the first of its kind that can be leased. -/
structure NextOfKind (catalog : JobCatalog) (key : String) (job : TraceJob) (nowMs : ℕ) : Prop where
  leasable : jobIsLeasable job nowMs = true
  first : ∀ (before : String) (other : TraceJob), catalog.jobs[before]? = some other →
    before < key →
    other.kind = job.kind → jobIsLeasable other nowMs = false

/-- After some calls, every enqueue has returned the job that it asked for, and workers find that
job. -/
structure Identifies (trace : List JobLabel) (catalog : JobCatalog) : Prop where
  returned : ∀ kind key job, Enqueued trace kind key (.ok (some job)) → job.kind = kind ∧
    job.idempotencyKey = key
  same_iff : ∀ kind key job kind' key' job', Enqueued trace kind key (.ok (some job)) →
    Enqueued trace kind' key' (.ok (some job')) →
    (job.jobId = job'.jobId ↔ kind = kind' ∧ key = key')
  found : ∀ kind key out, Enqueued trace kind key out → ∃ job : TraceJob,
    catalog.jobs[key]? = some job ∧
    job.kind = kind ∧ ∀ workerId nowMs leaseMs, catalog.NextOfKind key job nowMs →
      (catalog.call (.leaseNextAt workerId kind nowMs leaseMs)).1 =
        .ok (some (job.leaseAt workerId nowMs leaseMs))

/-! ### What is returned and what is stored -/

/-- Every job that an enqueue has returned is stored under the key, and every job that is stored was
asked for. -/
structure Recalls (trace : List JobLabel) (catalog : JobCatalog) : Prop where
  stored : ∀ kind key out, Enqueued trace kind key out → ∃ job job' : TraceJob,
    out = .ok (some job) ∧
    catalog.jobs[key]? = some job' ∧ job.kind = job'.kind ∧ job.jobId = job'.jobId ∧
      job.idempotencyKey = key
  asked : ∀ (key : String) (job : TraceJob), catalog.jobs[key]? = some job → ∃ out,
    Enqueued trace job.kind key out

variable {catalog catalog' : JobCatalog} {trace : List JobLabel} {label : JobLabel}

theorem enqueued_snoc {kind : JobKind} {key : String} {out : JobReturn} :
    Enqueued (trace ++ [label]) kind key out ↔
      Enqueued trace kind key out ∨ ∃ target, label = (.enqueue kind target key, out) := by
  simp only [Enqueued, List.mem_append, List.mem_singleton, exists_or, eq_comm]

/-- A call that enqueues nothing keeps the kinds and the ids of all jobs. -/
theorem Recalls.updated (h : Recalls trace catalog)
    (hlabel : ∀ kind target key, label.1 ≠ .enqueue kind target key)
    (hkept : ∀ (key : String) (job : TraceJob), catalog.jobs[key]? = some job →
      ∃ job' : TraceJob, catalog'.jobs[key]? = some job' ∧ job.kind = job'.kind ∧
      job.jobId = job'.jobId)
    (hold : ∀ (key : String) (job' : TraceJob), catalog'.jobs[key]? = some job' →
      ∃ job : TraceJob, catalog.jobs[key]? = some job ∧ job.kind = job'.kind) :
    Recalls (trace ++ [label]) catalog' := by
  have hsame : ∀ kind key out, Enqueued (trace ++ [label]) kind key out ↔
      Enqueued trace kind key out := by
    intro kind key out
    refine enqueued_snoc.trans (or_iff_left ?_)
    rintro ⟨target, rfl⟩
    exact hlabel kind target key rfl
  refine ⟨fun kind key out hout => ?_, fun key job hjob => ?_⟩
  · obtain ⟨job, before, rfl, hbefore, hkind, hid, hkey⟩ :=
      h.stored kind key out ((hsame kind key out).1 hout)
    obtain ⟨job', hjob', hkind', hid'⟩ := hkept key before hbefore
    exact ⟨job, job', rfl, hjob', hkind.trans hkind', hid.trans hid', hkey⟩
  · obtain ⟨before, hbefore, hkind⟩ := hold key job hjob
    obtain ⟨out, hout⟩ := h.asked key before hbefore
    exact ⟨out, (hsame _ _ _).2 (hkind ▸ hout)⟩

/-- A change of a job that keeps its kind and its id. -/
theorem Recalls.set (h : Recalls trace catalog)
    (hlabel : ∀ kind target key, label.1 ≠ .enqueue kind target key) {key : String}
    {job job' : TraceJob} (hjob : catalog.jobs[key]? = some job) (hkind : job.kind = job'.kind)
    (hid : job.jobId = job'.jobId) : Recalls (trace ++ [label]) (catalog.set key job') := by
  refine h.updated hlabel (fun k j hj => ?_) fun k j hj => ?_
  · by_cases hk : k = key
    · subst hk
      obtain rfl := Option.some.inj (hjob.symm.trans hj)
      exact ⟨job', getElem?_set_self .., hkind, hid⟩
    · exact ⟨j, (getElem?_set_of_ne job' hk).trans hj, rfl, rfl⟩
  · rcases getElem?_set_cases hj with ⟨rfl, rfl⟩ | ⟨-, hbefore⟩
    · exact ⟨job, hjob, hkind⟩
    · exact ⟨j, hbefore, rfl⟩

/-- An enqueue of a key that is there returns the job that is stored. -/
theorem Recalls.known (h : Recalls trace catalog) (hinv : catalog.Inv) (kind : JobKind)
    (target : String) {key : String} {existing : TraceJob}
    (hknown : catalog.jobs[key]? = some existing) :
    Recalls (trace ++ [(.enqueue kind target key, .ok (some existing))]) catalog where
  stored kind' key' out hout := by
    rcases enqueued_snoc.1 hout with hbefore | ⟨target', hnew⟩
    · exact h.stored kind' key' out hbefore
    · obtain ⟨hcall, rfl⟩ := Prod.mk.inj hnew
      obtain ⟨rfl, rfl, rfl⟩ := JobCall.enqueue.inj hcall
      exact ⟨existing, existing, rfl, hknown, rfl, rfl, (hinv key existing hknown).1⟩
  asked key' job hjob := by
    obtain ⟨out, hout⟩ := h.asked key' job hjob
    exact ⟨out, enqueued_snoc.2 (.inl hout)⟩

/-- An enqueue of a new key. -/
theorem Recalls.new (h : Recalls trace catalog) (kind : JobKind) (target : String) {key : String}
    (hnone : catalog.jobs[key]? = none) :
    Recalls (trace ++ [(.enqueue kind target key, .ok (some (.new kind target key)))])
      (catalog.set key (.new kind target key)) where
  stored kind' key' out hout := by
    rcases enqueued_snoc.1 hout with hbefore | ⟨target', hnew⟩
    · obtain ⟨job, job', rfl, hjob', hsame⟩ := h.stored kind' key' out hbefore
      have hne : key' ≠ key := by
        rintro rfl
        rw [hnone] at hjob'
        cases hjob'
      exact ⟨job, job', rfl, (getElem?_set_of_ne _ hne).trans hjob', hsame⟩
    · obtain ⟨hcall, rfl⟩ := Prod.mk.inj hnew
      obtain ⟨rfl, rfl, rfl⟩ := JobCall.enqueue.inj hcall
      exact ⟨_, _, rfl, getElem?_set_self .., rfl, rfl, rfl⟩
  asked key' job hjob := by
    rcases getElem?_set_cases hjob with ⟨rfl, rfl⟩ | ⟨-, hbefore⟩
    · exact ⟨_, enqueued_snoc.2 (.inr ⟨target, rfl⟩)⟩
    · obtain ⟨out, hout⟩ := h.asked key' job hbefore
      exact ⟨out, enqueued_snoc.2 (.inl hout)⟩

/-- **Every call keeps it.** -/
theorem Recalls.call (h : Recalls trace catalog) (hinv : catalog.Inv) (call : JobCall) :
    Recalls (trace ++ [(call, (catalog.call call).1)]) (catalog.call call).2 := by
  by_cases hcall : ∃ kind target key, call = .enqueue kind target key
  · obtain ⟨kind, target, key, rfl⟩ := hcall
    simp only [JobCatalog.call, enqueue, orInsert, TraceJob.new]
    cases hfound : catalog.jobs[key]? with
    | some existing => exact h.known hinv kind target hfound
    | none => exact h.new kind target hfound
  · have hlabel : ∀ kind target key, call ≠ .enqueue kind target key :=
      fun kind target key heq => hcall ⟨kind, target, key, heq⟩
    have heffect := catalog.effect_call call
    generalize (catalog.call call).1 = out at heffect ⊢
    generalize (catalog.call call).2 = catalog' at heffect ⊢
    cases heffect with
    | refused | idle =>
      exact h.updated hlabel (fun key job hjob => ⟨job, hjob, rfl, rfl⟩)
        fun key job hjob => ⟨job, hjob, rfl⟩
    | known | new => exact absurd rfl (hlabel _ _ _)
    | leased hfound => exact h.set hlabel (nextLeasable_spec hfound).1 rfl rfl
    | extended hfound => exact h.set hlabel (jobMutForToken_spec hfound).1 rfl rfl
    | completed hfound => exact h.set hlabel (jobMutForToken_spec hfound).1 rfl rfl
    | failed hfound => exact h.set hlabel (jobMutForToken_spec hfound).1 rfl rfl

/-- What the calls of a list have returned. -/
theorem recalls_callAll (calls : List JobCall) :
    Recalls (empty.callAll calls).1 (empty.callAll calls).2 := by
  induction calls using List.reverseRecOn with
  | nil =>
    refine ⟨fun kind key out hout => absurd hout.choose_spec List.not_mem_nil,
      fun key job hjob => ?_⟩
    simp [callAll, empty] at hjob
  | append_singleton calls call ih =>
    rw [callAll_snoc]
    exact ih.call (tracks_callAll calls).inv call

/-- The calls of a run are the calls that were made. -/
theorem map_fst_callAll (catalog : JobCatalog) (calls : List JobCall) :
    (catalog.callAll calls).1.map Prod.fst = calls := by
  induction calls generalizing catalog with
  | nil => rfl
  | cons call calls ih => exact congrArg (call :: ·) (ih _)

theorem asked_iff {calls : List JobCall} {kind : JobKind} {key : String} :
    Asked calls kind key ↔ ∃ out, Enqueued (empty.callAll calls).1 kind key out := by
  constructor
  · rintro ⟨target, hcall⟩
    rw [← map_fst_callAll empty calls] at hcall
    obtain ⟨⟨_, out⟩, hlabel, rfl⟩ := List.mem_map.1 hcall
    exact ⟨out, target, hlabel⟩
  · rintro ⟨out, target, hlabel⟩
    rw [← map_fst_callAll empty calls]
    exact ⟨target, List.mem_map_of_mem hlabel⟩

/-! ### Leases -/

/-- A lease takes the first job of its kind that can be leased. -/
theorem NextOfKind.lease {key : String} {job : TraceJob} {nowMs : ℕ}
    (h : catalog.NextOfKind key job nowMs) (hjob : catalog.jobs[key]? = some job)
    (workerId : String) (leaseMs : ℕ) :
    (catalog.call (.leaseNextAt workerId job.kind nowMs leaseMs)).1 =
      .ok (some (job.leaseAt workerId nowMs leaseMs)) := by
  have hfound : catalog.nextLeasable job.kind nowMs = some (key, job) := by
    obtain ⟨before, later, hsplit⟩ :=
      List.append_of_mem (Std.ExtTreeMap.mem_toList_iff_getElem?_eq_some.2 hjob)
    have hordered := @Std.ExtTreeMap.ordered_keys_toList _ _ compare catalog.jobs _
    rw [hsplit, List.pairwise_append] at hordered
    refine List.find?_eq_some_iff_append.2
      ⟨by simp [h.leasable], before, later, hsplit, fun e he => ?_⟩
    have hlt := compare_lt_iff_lt.1 (hordered.2.2 e he (key, job) List.mem_cons_self)
    have hother : catalog.jobs[e.1]? = some e.2 :=
      Std.ExtTreeMap.mem_toList_iff_getElem?_eq_some.1 (hsplit ▸ List.mem_append_left _ he)
    have hfirst := h.first e.1 e.2 hother hlt
    by_cases hkind : e.2.kind = job.kind
    · simp [hfirst hkind]
    · simp [hkind]
  rw [nextLeasable] at hfound
  rw [JobCatalog.call, leaseNextAt, hfound]

theorem kindName_inj {kind kind' : JobKind} (h : kindName kind = kindName kind') :
    kind = kind' := by
  revert h
  cases kind <;> cases kind' <;> decide

end JobCatalog

/-! ### Keys of one kind -/

/-- No key is used for two kinds of work. -/
def OneKindPerKey (calls : List JobCall) : Prop :=
  ∀ kind kind' key, Asked calls kind key → Asked calls kind' key → kind = kind'

/-- **An enqueue returns the job that was asked for** in every run of calls in which no key is used
for two kinds of work, and in no other. -/
theorem enqueue_identifies_iff (calls : List JobCall) :
    JobCatalog.Identifies (JobCatalog.empty.callAll calls).1 (JobCatalog.empty.callAll calls).2 ↔
      OneKindPerKey calls := by
  have hrecalls := JobCatalog.recalls_callAll calls
  have hinv := (JobCatalog.tracks_callAll calls).inv
  constructor
  · intro hidentifies kind kind' key hasked hasked'
    obtain ⟨out, hout⟩ := JobCatalog.asked_iff.1 hasked
    obtain ⟨out', hout'⟩ := JobCatalog.asked_iff.1 hasked'
    obtain ⟨job, stored, rfl, hstored, hkind, -⟩ := hrecalls.stored kind key out hout
    obtain ⟨job', stored', rfl, hstored', hkind', -⟩ := hrecalls.stored kind' key out' hout'
    obtain rfl := Option.some.inj (hstored.symm.trans hstored')
    rw [← (hidentifies.returned kind key job hout).1,
      ← (hidentifies.returned kind' key job' hout').1, hkind, hkind']
  · intro hcalls
    -- The job that is stored has the kind that was asked for.
    have hof : ∀ kind key out, Enqueued (JobCatalog.empty.callAll calls).1 kind key out →
        ∀ job : TraceJob, (JobCatalog.empty.callAll calls).2.jobs[key]? = some job →
        job.kind = kind := by
      intro kind key out hout job hjob
      obtain ⟨out', hout'⟩ := hrecalls.asked key job hjob
      exact hcalls _ _ key (JobCatalog.asked_iff.2 ⟨out', hout'⟩)
        (JobCatalog.asked_iff.2 ⟨out, hout⟩)
    have hreturned : ∀ kind key job,
        Enqueued (JobCatalog.empty.callAll calls).1 kind key (.ok (some job)) →
        job.kind = kind ∧ job.idempotencyKey = key ∧ job.jobId = jobIdOf kind key := by
      intro kind key job hout
      obtain ⟨_, stored, heq, hstored, hkind, hid, hkey⟩ := hrecalls.stored kind key _ hout
      obtain rfl := Option.some.inj (Except.ok.inj heq)
      have hsame := hof kind key _ hout stored hstored
      rw [hid, (hinv key stored hstored).2, hsame]
      exact ⟨hkind.trans hsame, hkey, rfl⟩
    refine ⟨fun kind key job hout => ?_, fun kind key job kind' key' job' hout hout' => ?_,
      fun kind key out hout => ?_⟩
    · exact ⟨(hreturned kind key job hout).1, (hreturned kind key job hout).2.1⟩
    · rw [(hreturned kind key job hout).2.2, (hreturned kind' key' job' hout').2.2]
      refine ⟨fun hid => (JobCatalog.jobIdOf_inj hid).imp_left JobCatalog.kindName_inj, ?_⟩
      rintro ⟨rfl, rfl⟩
      rfl
    · obtain ⟨job, stored, -, hstored, -⟩ := hrecalls.stored kind key out hout
      obtain rfl := hof kind key out hout stored hstored
      exact ⟨stored, hstored, rfl,
        fun workerId nowMs leaseMs hnext => hnext.lease hstored workerId leaseMs⟩

/-- A key that is used for two kinds of work. -/
def sharedKey : List JobCall :=
  [.enqueue .verifyDatabase "docs" "nightly", .enqueue .compactSegment "docs" "nightly",
    .leaseNextAt "a" .compactSegment 0 10]

/-- **Work that shares a key is dropped**: the enqueue returns the job of the other kind, and no
worker finds it. -/
theorem shared_key_drops :
    (JobCatalog.empty.callAll sharedKey).1.map
      (fun label => label.2.toOption.map (Option.map (·.jobId))) =
        [some (some "job:verify_database:nightly"),
          some (some "job:verify_database:nightly"), some none] ∧
      ¬ JobCatalog.Identifies (JobCatalog.empty.callAll sharedKey).1
        (JobCatalog.empty.callAll sharedKey).2 := by
  refine ⟨by decide +kernel, fun hidentifies => ?_⟩
  have hreturned := hidentifies.returned .compactSegment "nightly"
    (.new .verifyDatabase "docs" "nightly") ⟨"docs", by decide +kernel⟩
  exact absurd hreturned.1 (by decide)

end TraceDB
