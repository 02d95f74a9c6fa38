import TraceDB.Server.Client
import TraceDB.Server.Durable
import TraceDB.Server.Tenants

/-!
# Answers and commits

What the logs of a server hold and what its clients have been told belong together.

* `Request.Commits` : the commits that are planned for a request, for an operation that it asks for
  or to record the answer that it was executed with.
* `Request.Commits.receipts` : their receipts are for its key, and hold its answer.
* `Server.Explained` : every commit in a log is of a request that has arrived; the answers in the
  cache and on their way are those of commits in the log.  Every step keeps it.
* `no_stray_commits` : what is behind a pair was asked for by requests for its directory.
* `good_answers_logged` : a good answer to a mutation, also one out of the cache, is that of a
  commit that is in the log from then on.
-/

namespace TraceDB

variable {P : ServerFormat}

/-! ### Commits of requests -/

/-- A commit that is planned for a request: for an operation that it asks for, or to record the
answer that it was executed with. -/
inductive Request.Commits (P : ServerFormat) (trace : List Label) (q : Request)
    (commit : CommitRecord) :
    Prop
  | operation {op : Op} : q.Asks P op → op.Commits P.toEngineFormat commit →
    Commits P trace q commit
  | receipt {i : ℕ} {key : CacheKey} {response : String} :
      q.route.recordsReceiptAfterResponse = true → q.cacheKey = some key →
      .executed i q response ∈ trace →
      (Op.recordIdempotencyReceipt (key.receiptAfter P q response)).Commits
        P.toEngineFormat commit →
      Commits P trace q commit

/-- The commit is that of the operation of a mutating request, and the response the answer at its
epoch. -/
def Request.Writes (P : ServerFormat) (q : Request) (commit : CommitRecord) (response : String) :
    Prop :=
  ∃ decoded timing, q.decode P = some (.ok decoded) ∧ decoded.op.Commits P.toEngineFormat commit ∧
    response = httpOkJson (decoded.body timing commit.epoch)

theorem Op.Commits.receipts {op : Op} {commit : CommitRecord}
    (h : op.Commits P.toEngineFormat commit) :
    commit.idempotencyReceipts = op.receipts commit.epoch := by
  obtain ⟨db, plan, checksum, hplan, rfl⟩ := h
  rw [CommitRecord.prepareForFrame_epoch, (stamped_plan hplan).epoch]
  exact (plan_receipts hplan).1

/-- **The receipts of a request** are for its key, and hold the answer to it. -/
theorem Request.Commits.receipts {trace : List Label} {q : Request} {commit : CommitRecord}
    (h : q.Commits P trace commit) {receipt : IdempotencyReceipt}
    (hmem : receipt ∈ commit.idempotencyReceipts)
    (hmutation : (CacheKey.fromReceipt receipt).route.isMutation = true) :
    q.cacheKey = some (.fromReceipt receipt) ∧ q.bodyHash P = receipt.bodyHash ∧
      q.Writes P commit receipt.response := by
  cases h with
  | operation hasks hcommits =>
    rw [hcommits.receipts] at hmem
    rcases hasks with ⟨body, hdecode⟩ | ⟨records, -, rfl⟩ | ⟨-, -, hnone⟩
    · rw [(Request.decode_run hdecode _).1] at hmem
      have hkey := Request.fromReceipt_receiptsFor hmem
      rw [Request.receiptsFor_run hkey hdecode, List.mem_singleton] at hmem
      rw [hmem] at hkey ⊢
      exact ⟨hkey, rfl, _, "", hdecode, hcommits, rfl⟩
    · exact absurd hmem List.not_mem_nil
    · rw [hnone] at hmem
      exact absurd hmem List.not_mem_nil
  | @receipt i key response hroute hkey _ hcommits =>
    -- The answer is recorded for a route that does not mutate.
    rw [hcommits.receipts] at hmem
    obtain rfl := List.mem_singleton.1 hmem
    have hsame := (Request.cacheKey_eq_some hkey).1
    rw [CacheKey.receiptAfter, CacheKey.fromReceipt_toReceipt, hsame] at hmutation
    exact absurd hroute (by
      cases hq : q.route <;> simp_all [Route.isMutation, Route.recordsReceiptAfterResponse])

theorem Request.Commits.more {trace : List Label} {q : Request} {commit : CommitRecord}
    (h : q.Commits P trace commit) (more : List Label) : q.Commits P (trace ++ more) commit := by
  cases h with
  | operation hasks hcommits => exact .operation hasks hcommits
  | receipt hroute hkey hmem hcommits =>
    exact .receipt hroute hkey (List.mem_append_left _ hmem) hcommits

/-! ### The invariant -/

/-- A commit behind a pair is that of a request for its directory that has arrived. -/
def Accounts (P : ServerFormat) (rootDir : String) (trace : List Label) (key : ShardKey)
    (commit : CommitRecord) : Prop :=
  ∃ i q, .arrived i q ∈ trace ∧ shardDir rootDir q.shard = shardDir rootDir key ∧
    q.Commits P trace commit

/-- An entry of the cache is the answer of a commit in the log behind the pair of its key. -/
def Server.Backs (P : ServerFormat) (rootDir : String) (s : Server) (key : CacheKey)
    (entry : IdempotencyEntry) : Prop :=
  ∃ (q : Request) (commit : CommitRecord) (entries : List WalEntry), q.cacheKey = some key ∧
    q.bodyHash P = entry.bodyHash ∧
    q.Writes P commit entry.response ∧ s.HasLog P rootDir key.shard entries ∧
    commit ∈ entries.map (·.commit)

theorem Server.Backs.step {rootDir : String} {s s' : Server} {key : CacheKey}
    {entry : IdempotencyEntry} (h : s.Backs P rootDir key entry) (hlocks : s.Locks P rootDir)
    {label : Label} (hstep : Step P s label s') : s'.Backs P rootDir key entry := by
  obtain ⟨q, commit, entries, hkey, hhash, hwrites, hlog, hmem⟩ := h
  obtain ⟨rest, hrest, -⟩ := hlog.step hlocks hstep
  refine ⟨q, commit, entries ++ rest, hkey, hhash, hwrites, hrest, ?_⟩
  rw [List.map_append]
  exact List.mem_append_left _ hmem

/-- Every commit has its request, and every answer its commit. -/
structure Server.Explained (P : ServerFormat) (rootDir : String) (trace : List Label) (s : Server) :
    Prop where
  locks : s.Locks P rootDir
  recording : s.Recording
  arrived : ∀ i flight, s.flights i = some flight → ∃ j, .arrived j flight.request ∈ trace
  executed : ∀ i flight response, s.flights i = some flight →
    flight.phase.response = some response →
    .executed i flight.request response ∈ trace
  logs : ∀ key, ∃ entries, s.HasLog P rootDir key entries ∧
    ∀ entry ∈ entries, Accounts P rootDir trace key entry.commit
  cached : ∀ key entry, s.cache.get key = some entry → key.route.isMutation = true →
    s.Backs P rootDir key entry
  carried : ∀ i flight response, s.flights i = some flight → flight.phase.response = some response →
    ∀ key, flight.request.cacheKey = some key → key.route.isMutation = true →
      s.Backs P rootDir key ⟨flight.request.bodyHash P, response⟩

/-! ### Steps -/

section Steps

variable {s s' : Server} {label : Label}

/-- An answer on its way was there before the step, or it is that of the operation. -/
theorem Step.carried_before (h : Step P s label s') {j : ℕ} {flight : Flight} {response : String}
    (hj : s'.flights j = some flight) (hresponse : flight.phase.response = some response) :
    (∃ flight', s.flights j = some flight' ∧ flight'.request = flight.request ∧
      flight'.phase.response = some response) ∨ label = .executed j flight.request response := by
  by_cases hlabel : label.flight = some j
  · cases h with
    | arrive i q _ hactor =>
      obtain rfl := Option.some.inj hlabel
      rw [Server.setFlight_flights_self] at hj
      obtain rfl := Option.some.inj hj
      cases hresponse
    | refuse i q hnone _ =>
      obtain rfl := Option.some.inj hlabel
      rw [hnone] at hj
      cases hj
    | replay _ _ =>
      obtain rfl := Option.some.inj hlabel
      rw [Server.clear_flights_self] at hj
      cases hj
    | miss _ _ =>
      obtain rfl := Option.some.inj hlabel
      rw [Server.setFlight_flights_self] at hj
      obtain rfl := Option.some.inj hj
      cases hresponse
    | @execute i q db db' answer hi hdb hsection =>
      obtain rfl := Option.some.inj hlabel
      unfold Server.answered at hj
      split_ifs at hj
      · rw [Server.setFlight_flights_self] at hj
        obtain rfl := Option.some.inj hj
        exact .inr (by rw [Option.some.inj hresponse])
      · rw [Server.setFlight_flights_self] at hj
        obtain rfl := Option.some.inj hj
        exact .inr (by rw [Option.some.inj hresponse])
      · rw [Server.clear_flights_self] at hj
        cases hj
    | fail _ _ _ | unrecord _ _ _ _ | insert _ _ | drop _ _ =>
      obtain rfl := Option.some.inj hlabel
      rw [Server.clear_flights_self] at hj
      cases hj
    | @record i q db db' answer key reply hi hkey hdb hrun =>
      obtain rfl := Option.some.inj hlabel
      rw [Server.setFlight_flights_self] at hj
      obtain rfl := Option.some.inj hj
      exact .inl ⟨_, hi, rfl, hresponse⟩
    | restart _ _ _ => cases hlabel
  · rcases h.flight_before hj with ⟨flight', hbefore, hrequest, hsame⟩ | rfl
    · obtain rfl := hsame hlabel
      exact .inl ⟨_, hbefore, rfl, hresponse⟩
    · exact absurd rfl hlabel

/-- The cache changes by the answer of a request on its way, or with a restart. -/
theorem Step.cache_cases (h : Step P s label s') : s'.cache = s.cache ∨
    (∃ i q response key, s.flights i = some ⟨q, .ready response⟩ ∧ q.cacheKey = some key ∧
      s'.cache = s.cache.insert key ⟨q.bodyHash P, response⟩) ∨ label = .restarted := by
  cases h with
  | arrive i q _ hactor =>
    rcases Server.forActor_cases hactor with rfl | ⟨_, _, -, -, -, rfl⟩
    · exact .inl rfl
    · exact .inl rfl
  | refuse _ _ _ _ | replay _ _ | miss _ _ | drop _ _ => exact .inl rfl
  | execute _ _ _ =>
    unfold Server.answered
    split_ifs
    · exact .inl (Server.setDb_cache ..)
    · exact .inl (Server.setDb_cache ..)
    · exact .inl (Server.setDb_cache ..)
  | fail _ _ _ | record _ _ _ _ | unrecord _ _ _ _ => exact .inl (Server.setDb_cache ..)
  | @insert i q response key hi hkey => exact .inr (.inl ⟨i, q, response, key, hi, hkey, rfl⟩)
  | restart _ _ _ => exact .inr (.inr rfl)

/-- A good answer to a request with a key was in the cache, or on its way there. -/
theorem Step.answer_keyed (h : Step P s label s') {q : Request} {response : String}
    (hanswer : label.answer = some (q, response)) (hok : isOk response = true) {key : CacheKey}
    (hkey : q.cacheKey = some key) :
    s.cache.get key = some ⟨q.bodyHash P, response⟩ ∨ ∃ i,
    s.flights i = some ⟨q, .ready response⟩ := by
  cases h with
  | arrive _ _ _ _ | miss _ _ | record _ _ _ _ | drop _ _ | restart _ _ _ => cases hanswer
  | refuse _ _ _ _ | fail _ _ _ | unrecord _ _ _ _ =>
    obtain ⟨rfl, rfl⟩ := Prod.mk.inj (Option.some.inj hanswer)
    rw [isOk_badRequest] at hok
    cases hok
  | replay _ hlookup =>
    obtain ⟨rfl, rfl⟩ := Prod.mk.inj (Option.some.inj hanswer)
    exact .inl (Server.get_of_lookup_ok hkey hlookup hok)
  | @insert i q' response' _ hi _ =>
    obtain ⟨rfl, rfl⟩ := Prod.mk.inj (Option.some.inj hanswer)
    exact .inr ⟨i, hi⟩
  | @execute i q' db db' response' _ _ _ =>
    -- Such an answer of an operation goes into the cache first.
    rw [Label.answer] at hanswer
    split_ifs at hanswer with hgood
    obtain ⟨rfl, rfl⟩ := Prod.mk.inj (Option.some.inj hanswer)
    exact absurd (by rw [hkey, hok]; rfl) hgood

end Steps

/-- What a cache made of receipts has is one of them. -/
theorem IdempotencyCacheState.mem_of_get_fromReceipts {receipts : List IdempotencyReceipt}
    {key : CacheKey} {entry : IdempotencyEntry} (h : (fromReceipts receipts).get key = some entry) :
    ∃ receipt ∈ receipts, CacheKey.fromReceipt receipt = key ∧
      entry = ⟨receipt.bodyHash, receipt.response⟩ := by
  induction receipts using List.reverseRecOn with
  | nil => cases h
  | append_singleton receipts last ih =>
    by_cases hkey : CacheKey.fromReceipt last = key
    · subst hkey
      rw [get_fromReceipts_snoc] at h
      exact ⟨last, List.mem_append_right _ List.mem_cons_self, rfl, (Option.some.inj h).symm⟩
    · rw [get_fromReceipts_append_of_ne (by simpa using hkey)] at h
      obtain ⟨receipt, hmem, heq⟩ := ih h
      exact ⟨receipt, List.mem_append_left _ hmem, heq⟩

theorem Accounts.more {rootDir : String} {trace : List Label} {key : ShardKey}
    {commit : CommitRecord} (h : Accounts P rootDir trace key commit) (more : List Label) :
    Accounts P rootDir (trace ++ more) key commit := by
  obtain ⟨i, q, hmem, hdir, hcommits⟩ := h
  exact ⟨i, q, List.mem_append_left _ hmem, hdir, hcommits.more more⟩

/-- The commits of the root, and the receipts that a restart reads from it. -/
theorem backs_of_receipt {rootDir : String} (trace : List Label) {s : Server} {root : ShardKey}
    (hroot : root.isDefault = true) {entries : List WalEntry}
    (hlog : s.HasLog P rootDir root entries)
    (haccounts : ∀ entry ∈ entries, Accounts P rootDir trace root entry.commit) {db : Db}
    (hcounted : Counted P.toEngineFormat db 0 0 entries) {key : CacheKey} {entry : IdempotencyEntry}
    (hget : (IdempotencyCacheState.fromReceipts db.idempotencyReceipts).get key = some entry)
    (hmutation : key.route.isMutation = true) : s.Backs P rootDir key entry := by
  obtain ⟨receipt, hreceipt, rfl, rfl⟩ := IdempotencyCacheState.mem_of_get_fromReceipts hget
  obtain ⟨logged, hlogged, hmem⟩ := hcounted.mem_receipts hreceipt
  obtain ⟨i, q, -, hdir, hcommits⟩ := haccounts logged hlogged
  obtain ⟨hkey, hhash, hwrites⟩ := hcommits.receipts hmem hmutation
  have hdefault : q.shard.isDefault = true := by
    rcases shardDir_eq_iff.1 hdir with ⟨hdefault, -⟩ | hsame
    · exact hdefault
    · rw [hsame.right] at hroot
      cases hroot
  refine ⟨q, logged.commit, entries, hkey, hhash, hwrites, ?_, List.mem_map_of_mem hlogged⟩
  rw [(Request.cacheKey_eq_some hkey).2]
  cases hlog with
  | root _ hcounted' => exact .root hdefault hcounted'
  | held hother _ _ _ | closed hother _ _ =>
    rw [hother] at hroot
    cases hroot

/-! ### Runs -/

namespace Server.Explained

variable {rootDir : String} {trace : List Label} {s s' : Server} {label : Label}

theorem opened {start : Server} (h : openServerState P (Disk.empty rootDir)
    (fun path => some (Disk.empty path)) = .ok start) : start.Explained P rootDir [] := by
  obtain ⟨db, hdb, -, -, -, hcache, hnone⟩ := openServerState_eq h
  have hno : ∀ i flight, start.flights i ≠ some flight := by
    intro i flight hi
    rw [hnone] at hi
    cases hi
  refine ⟨.opened h fun db hdb => .opened hdb, fun i q response hi => absurd hi (hno i _),
    fun i flight hi => absurd hi (hno i flight),
      fun i flight response hi => absurd hi (hno i flight),
    fun key => ⟨[], Server.HasLog.opened h key, fun entry hmem => absurd hmem List.not_mem_nil⟩, ?_,
    fun i flight response hi => absurd hi (hno i flight)⟩
  intro key entry hget hmutation
  rw [hcache] at hget
  have hlog : start.HasLog P rootDir ⟨"local", "main"⟩ [] := .opened h _
  exact backs_of_receipt [] rfl hlog (fun entry hmem => absurd hmem List.not_mem_nil)
    ((Disk.HasLog.empty rfl).counted hdb) hget hmutation

/-- The commits that a step adds are those of requests that have arrived. -/
theorem accounts (h : s.Explained P rootDir trace) {key : ShardKey} {commit : CommitRecord}
    (hcommits : s.Commits P rootDir key commit) : Accounts P rootDir trace key commit := by
  obtain ⟨i, ⟨q, phase⟩, hi, hdir, op, hruns, hcommits⟩ := hcommits
  obtain ⟨j, harrived⟩ := h.arrived i _ hi
  refine ⟨j, q, harrived, hdir, ?_⟩
  cases phase with
  | arrived => exact hruns.elim
  | ready response => exact hruns.elim
  | missed => exact .operation hruns hcommits
  | unrecorded response =>
    obtain ⟨key, hkey, rfl⟩ := hruns
    exact .receipt (h.recording i q response hi) hkey (h.executed i _ response hi rfl) hcommits

theorem logs_step (h : s.Explained P rootDir trace) (hstep : Step P s label s') (key : ShardKey) :
    ∃ entries, s'.HasLog P rootDir key entries ∧
      ∀ entry ∈ entries, Accounts P rootDir (trace ++ [label]) key entry.commit := by
  obtain ⟨entries, hlog, haccounts⟩ := h.logs key
  obtain ⟨rest, hrest, hnew⟩ := hlog.step h.locks hstep
  refine ⟨_, hrest, fun entry hmem => ?_⟩
  rcases List.mem_append.1 hmem with hold | hlast
  · exact (haccounts entry hold).more _
  · exact (h.accounts (hnew entry hlast)).more _

/-- The answer to a mutation is that of its commit. -/
theorem mutated (h : s.Explained P rootDir trace) {i : ℕ} {q : Request} {response : String}
    (hstep : Step P s (.executed i q response) s') (hmutation : q.route.isMutation = true) :
    ∃ commit entries, q.Writes P commit response ∧ s'.HasLog P rootDir q.shard entries ∧
      commit ∈ entries.map (·.commit) := by
  obtain ⟨decoded, hdecode⟩ : ∃ decoded, q.decode P = some (.ok decoded) := by
    cases hstep with
    | execute _ _ hsection => exact (hsection.decoded hmutation).2
  obtain ⟨entries, hlog, -⟩ := h.logs q.shard
  obtain ⟨db, plan, timing, -, hplan, -, hresponse, hlog'⟩ :=
    hstep.executed_commits hdecode h.locks hlog
  refine ⟨plan.commit.prepareForFrame (lastChecksum entries), _,
    ⟨decoded, timing, hdecode, ⟨db, plan, _, hplan, rfl⟩, hresponse⟩, hlog', ?_⟩
  rw [List.map_append]
  exact List.mem_append_right _ List.mem_cons_self

theorem carried_step (h : s.Explained P rootDir trace) (hstep : Step P s label s') {i : ℕ}
    {flight : Flight} {response : String} (hi : s'.flights i = some flight)
    (hresponse : flight.phase.response = some response) {key : CacheKey}
    (hkey : flight.request.cacheKey = some key) (hmutation : key.route.isMutation = true) :
    s'.Backs P rootDir key ⟨flight.request.bodyHash P, response⟩ := by
  obtain ⟨hroute, hshard⟩ := Request.cacheKey_eq_some hkey
  rcases hstep.carried_before hi hresponse with ⟨flight', hbefore, hrequest, hcarried⟩ | rfl
  · rw [← hrequest] at hkey ⊢
    exact (h.carried i flight' response hbefore hcarried key hkey hmutation).step h.locks hstep
  · obtain ⟨commit, entries, hwrites, hlog, hmem⟩ := h.mutated hstep (hroute ▸ hmutation)
    exact ⟨_, commit, entries, hkey, rfl, hwrites, hshard ▸ hlog, hmem⟩

theorem cached_step (h : s.Explained P rootDir trace) (hstep : Step P s label s') {key : CacheKey}
    {entry : IdempotencyEntry} (hget : s'.cache.get key = some entry)
    (hmutation : key.route.isMutation = true) : s'.Backs P rootDir key entry := by
  rcases hstep.cache_cases with hsame | ⟨i, q, response, key', hi, hkey', hinsert⟩ | rfl
  · rw [hsame] at hget
    exact (h.cached key entry hget hmutation).step h.locks hstep
  · rw [hinsert] at hget
    by_cases hkey : key = key'
    · subst hkey
      rw [IdempotencyCacheState.get_insert_self] at hget
      obtain rfl := Option.some.inj hget
      exact (h.carried i _ response hi rfl key hkey' hmutation).step h.locks hstep
    · rw [IdempotencyCacheState.get_insert_of_ne _ hkey] at hget
      exact (h.cached key entry hget hmutation).step h.locks hstep
  · obtain ⟨entries, hlog, haccounts⟩ := h.logs ⟨"local", "main"⟩
    cases hstep with
    | restart hroot hdirs hopen =>
      obtain ⟨db, hdb, hroot', -, -, hcache, -⟩ := openServerState_eq hopen
      cases hlog with
      | root hdefault hcounted =>
        obtain ⟨rest, hlog', hnew⟩ := hroot.hasLog hcounted
        rw [hcache] at hget
        refine backs_of_receipt trace hdefault
          (.root hdefault ((hlog'.counted hdb).hasLog.counted hroot')) (fun entry hmem => ?_)
          (hlog'.counted hdb) hget hmutation
        rcases List.mem_append.1 hmem with hold | hlast
        · exact haccounts entry hold
        · obtain ⟨i, flight, hi, hhere, hcommits⟩ := hnew entry hlast
          exact h.accounts ⟨i, flight, hi, shardDir_eq_iff.2 (.inl ⟨hhere, hdefault⟩), hcommits⟩
      | held hother _ _ _ | closed hother _ _ => cases hother

/-- **Every step** keeps commits and answers explained. -/
theorem step (h : s.Explained P rootDir trace) (hstep : Step P s label s') :
    s'.Explained P rootDir (trace ++ [label]) where
  locks := h.locks.step hstep
  recording := h.recording.step hstep
  arrived i flight hi := by
    rcases hstep.flight_before hi with ⟨flight', hbefore, hrequest, -⟩ | rfl
    · obtain ⟨j, harrived⟩ := h.arrived i flight' hbefore
      rw [hrequest] at harrived
      exact ⟨j, List.mem_append_left _ harrived⟩
    · exact ⟨i, List.mem_append_right _ List.mem_cons_self⟩
  executed i flight response hi hresponse := by
    rcases hstep.carried_before hi hresponse with ⟨flight', hbefore, hrequest, hcarried⟩ | rfl
    · have hexecuted := h.executed i flight' response hbefore hcarried
      rw [hrequest] at hexecuted
      exact List.mem_append_left _ hexecuted
    · exact List.mem_append_right _ List.mem_cons_self
  logs := h.logs_step hstep
  cached _ _ := h.cached_step hstep
  carried _ _ _ hi hresponse _ := h.carried_step hstep hi hresponse

/-- A good answer to a mutation is that of a commit in the log behind its pair. -/
theorem answered (h : s.Explained P rootDir trace) (hstep : Step P s label s') {q : Request}
    {response : String} (hanswer : label.answer = some (q, response)) (hok : isOk response = true)
    (hmutation : q.route.isMutation = true) :
    ∃ writer commit entries,
      (writer = q ∨ ∃ key, q.cacheKey = some key ∧ writer.IsRetry P key (q.bodyHash P)) ∧
      writer.Writes P commit response ∧ s'.HasLog P rootDir q.shard entries ∧
      commit ∈ entries.map (·.commit) := by
  cases hkey : q.cacheKey with
  | none =>
    obtain ⟨i, rfl⟩ := hstep.answer_keyless hanswer hok hkey
    obtain ⟨commit, entries, hwrites, hlog, hmem⟩ := h.mutated hstep hmutation
    exact ⟨q, commit, entries, .inl rfl, hwrites, hlog, hmem⟩
  | some key =>
    obtain ⟨hroute, hshard⟩ := Request.cacheKey_eq_some hkey
    rw [← hroute] at hmutation
    have hbacks : s.Backs P rootDir key ⟨q.bodyHash P, response⟩ := by
      rcases hstep.answer_keyed hanswer hok hkey with hcached | ⟨i, hi⟩
      · exact h.cached key _ hcached hmutation
      · exact h.carried i _ response hi rfl key hkey hmutation
    obtain ⟨writer, commit, entries, hwriter, hhash, hwrites, hlog, hmem⟩ :=
      hbacks.step h.locks hstep
    rw [hshard] at hlog
    exact ⟨writer, commit, entries, .inr ⟨key, rfl, hwriter, hhash⟩, hwrites, hlog, hmem⟩

theorem runs {start : Server} (hopen : openServerState P (Disk.empty rootDir)
    (fun path => some (Disk.empty path)) = .ok start) {allowed : Server → Label → Prop}
    (h : Runs (Step P) allowed start trace s) : s.Explained P rootDir trace :=
  h.invariant (I := fun trace s => s.Explained P rootDir trace) (opened hopen)
    fun _ _ _ _ _ hstep hs => hs.step hstep

end Server.Explained

/-- **No stray commits.**  In every run of a server, with restarts and crashes, what is behind a
pair is a log whose commits were all planned for requests for its directory that have arrived: for
the operation of the body or of the command of a text, or to record the answer that the request was
executed with. -/
theorem no_stray_commits {S : Type} {X : RouteFormat S} {rootDir : String} {start s : Server}
    {trace : List Label}
    (hopen : openServerState X.toServerFormat (Disk.empty rootDir)
      (fun path => some (Disk.empty path)) = .ok start)
    (h : Runs (Step X.toServerFormat) (fun _ _ => True) start trace s) (key : ShardKey) :
    ∃ commits, s.Logged X.toServerFormat key commits ∧
      ∀ commit ∈ commits, Accounts X.toServerFormat rootDir trace key commit := by
  have hexplained := Server.Explained.runs hopen h
  obtain ⟨entries, hlog, haccounts⟩ := hexplained.logs key
  refine ⟨_, hlog.logged hexplained.locks, fun commit hmem => ?_⟩
  obtain ⟨entry, hentry, rfl⟩ := List.mem_map.1 hmem
  exact haccounts entry hentry

theorem createRequest_decode_routes :
    createRequest.decode RouteFormat.reference.toServerFormat =
      some (.ok (.run createOp epochBody)) :=
  createPages_decode_of (by simp [RouteFormat.reference, BodyFormat.reference]) "local" (some "k")

/-- A table is created on a new server. -/
theorem created_table_accounted :
    let P := RouteFormat.reference.toServerFormat
    ∃ trace s, Runs (Step P) (fun _ _ => True) (Server.initial P "db") trace s ∧
      ∃ commits, s.Logged P createRequest.shard commits ∧
        ∀ commit ∈ commits, Accounts P "db" trace createRequest.shard commit := by
  obtain ⟨plan, -, hplan, -, hfit, -⟩ := plans_of_createOp
  have hdefault : createRequest.shard.isDefault = true := by decide
  have h₀ : Runs (Step RouteFormat.reference.toServerFormat) (fun _ _ => True)
      (Server.initial RouteFormat.reference.toServerFormat "db") []
      (Server.initial RouteFormat.reference.toServerFormat "db") := .start
  have h₁ := h₀.step trivial (Step.arrive_default (i := 0) (q := createRequest) rfl hdefault)
  have h₂ := h₁.step trivial
    (Step.miss (i := 0) rfl (Server.lookup_of_get_none (createPages_cacheKey "local") rfl))
  have h₃ := h₂.step trivial
    (Step.execute_run (i := 0) rfl rfl createRequest_decode_routes
      (synced_initialDb "db") hplan hfit)
  exact ⟨_, _, h₃, no_stray_commits (openServerState_empty "db") h₃ createRequest.shard⟩

end TraceDB
