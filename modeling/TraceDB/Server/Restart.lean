import TraceDB.Engine.Replay
import TraceDB.Server.Idempotency

/-!
# Answers that survive a restart

A mutating request on the default shard leaves its answer in the log, with the commit of its
operation, and the cache of a restarted server is filled from there.

* `InTurn` : the steps along which the requests with one key come one after the other, and none of
  them is a batch that asks for the timing of its write.
* `Remembers` : what the receipts of the data root, the cache and the requests on their way have to
  do with each other.
* `replay_survives_restart` : along runs of such steps a retry of an answered request gets the
  recorded answer, and the key with another body is refused; neither changes a database.
* `other_shard_forgets` : the receipts of the other shards are not read when the server starts.
-/

namespace TraceDB

variable (P : ServerFormat) (key : CacheKey)

/-- A request with the key past its lookup, by the entry that it carries, if it has one already. -/
def Flight.asKeyed (flight : Flight) : Option (Option IdempotencyEntry) :=
  if flight.request.cacheKey = some key ∧ flight.phase.isPast = true then
    some (flight.phase.response.map fun response => ⟨flight.request.bodyHash P, response⟩)
  else none

/-- The requests with the key past their lookup. -/
def Server.keyed (s : Server) : ℕ → Option (Option IdempotencyEntry) :=
  s.project (Flight.asKeyed P key)

/-- What the receipts of the data root say about the key. -/
def Server.recorded (s : Server) : Option IdempotencyEntry :=
  (IdempotencyCacheState.fromReceipts s.root.idempotencyReceipts).get key

/-- The steps along which requests with the key come one after the other: none looks the cache up in
vain while another one is past its lookup, and none that is executed asks for the timing of its
write. -/
def InTurn (s : Server) : Label → Prop
  | .missed _ q => q.cacheKey = some key → ∀ j, s.keyed P key j = none
  | .executed _ q _ => q.cacheKey = some key → q.isTimed P = false
  | _ => True

/-- What holds along such runs. -/
structure Remembers (trace : List Label) (s : Server) : Prop where
  sound : s.Sound P
  /-- Only one request with the key is past its lookup. -/
  alone : ∀ i j, s.keyed P key i ≠ none → s.keyed P key j ≠ none → i = j
  /-- While it is before its operation, the key is not known. -/
  unknown : ∀ i, s.keyed P key i = some none → s.recorded key = none
  /-- After its operation, the log has the entry that it carries. -/
  carried : ∀ i entry, s.keyed P key i = some (some entry) → s.recorded key = some entry
  /-- Between requests with the key, the cache has what the log has. -/
  cached : (∀ i, s.keyed P key i = none) → ∀ entry, s.recorded key = some entry →
    s.cache.get key = some entry
  /-- The log has what the cache has. -/
  logged : ∀ entry, s.cache.get key = some entry → s.recorded key = some entry
  /-- While a request with the key is past its lookup, the cache does not have the key. -/
  fresh : ∀ i, s.keyed P key i ≠ none → s.cache.get key = none
  /-- The cache has what has been answered. -/
  answers : ∀ label ∈ trace, ∀ q response, label.answer = some (q, response) →
    q.cacheKey = some key → isOk response = true →
    s.cache.get key = some ⟨q.bodyHash P, response⟩

variable {P key}

/-! ### Requests with the key -/

section Keyed

variable {s s' : Server} {i : ℕ} {flight : Flight}

theorem keyed_congr (h : s'.flights = s.flights) : s'.keyed P key = s.keyed P key :=
  Server.project_congr _ h

theorem keyed_of_flight (h : s.flights i = some flight) : s.keyed P key i = flight.asKeyed P key :=
  Server.project_of_flight _ h

theorem keyed_setFlight (s : Server) (i : ℕ) (flight : Flight) :
    (s.setFlight i flight).keyed P key = Function.update (s.keyed P key) i (flight.asKeyed P key) :=
  Server.project_setFlight _ s i flight

theorem keyed_clear (s : Server) (i : ℕ) :
    (s.clear i).keyed P key = Function.update (s.keyed P key) i none :=
  Server.project_clear _ s i

theorem keyed_setFlight_self (h : flight.asKeyed P key = s.keyed P key i) :
    (s.setFlight i flight).keyed P key = s.keyed P key :=
  Server.project_setFlight_self _ h

theorem keyed_clear_self (h : s.keyed P key i = none) : (s.clear i).keyed P key = s.keyed P key :=
  Server.project_clear_self _ h

theorem asKeyed_of_ne {q : Request} (h : q.cacheKey ≠ some key) (phase : Phase) :
    Flight.asKeyed P key ⟨q, phase⟩ = none := if_neg fun hk => h hk.1

theorem asKeyed_arrived (q : Request) : Flight.asKeyed P key ⟨q, .arrived⟩ = none :=
  if_neg fun hk => by cases hk.2

theorem asKeyed_past {q : Request} (h : q.cacheKey = some key) {phase : Phase}
    (hpast : phase.isPast = true) : Flight.asKeyed P key ⟨q, phase⟩ =
      some (phase.response.map fun response => ⟨q.bodyHash P, response⟩) := if_pos ⟨h, hpast⟩

end Keyed

/-! ### Receipts -/

/-- A request leaves only receipts of its own key. -/
theorem Request.fromReceipt_receiptsFor {q : Request} {response : String}
    {receipt : IdempotencyReceipt} (h : receipt ∈ q.receiptsFor P response) :
    q.cacheKey = some (.fromReceipt receipt) := by
  unfold Request.receiptsFor at h
  split at h
  · obtain ⟨receipt', hreceipt, rfl⟩ := by
      simpa only [Option.mem_toList, Option.mem_def, Option.map_eq_some_iff] using h
    unfold Request.receipt at hreceipt
    obtain ⟨key, hkey, rfl⟩ := Option.map_eq_some_iff.1 hreceipt
    exact hkey
  · cases h

/-- The receipt that a request with a key leaves. -/
theorem Request.receiptsFor_run {q : Request} (hkey : q.cacheKey = some key) {op : Op}
    {body : Epoch → String} (hdecode : q.decode P = some (.ok (.run op body))) (response : String) :
    q.receiptsFor P response = [key.receiptAfter P q response] := by
  rw [Request.receiptsFor, hdecode, Request.receipt, hkey]
  rfl

theorem recorded_append_of_ne {s s' : Server} {more : List IdempotencyReceipt}
    (hreceipts : s'.root.idempotencyReceipts = s.root.idempotencyReceipts ++ more)
    (hmore : ∀ receipt ∈ more, CacheKey.fromReceipt receipt ≠ key) :
    s'.recorded key = s.recorded key := by
  rw [Server.recorded, hreceipts]
  exact IdempotencyCacheState.get_fromReceipts_append_of_ne hmore

theorem recorded_of_receipts_eq {s s' : Server}
    (hreceipts : s'.root.idempotencyReceipts = s.root.idempotencyReceipts) :
    s'.recorded key = s.recorded key := by
  rw [Server.recorded, hreceipts, Server.recorded]

/-- A good answer of a mutating route. -/
theorem EngineSection.decoded {q : Request} {db db' : Db} {response : String}
    (h : EngineSection P q db (.ok response) db') (hmutation : q.route.isMutation = true) :
    isOk response = true ∧ ∃ decoded, q.decode P = some (.ok decoded) := by
  have hanswer : ∀ {body : Epoch → String} {outcome : Result Reply × Db},
      .ok response = (answerOf P body outcome).1 → isOk response = true := by
    rintro body ⟨e | reply, db⟩ hout
    · cases hout
    · obtain rfl := Except.ok.inj hout
      exact isOk_httpOkJson _
  generalize hout : (Except.ok response : Except String String) = out at h
  cases h with
  | malformed hdecode => cases hout
  | @mutation decoded timing hdecode =>
    refine ⟨?_, decoded, hdecode⟩
    cases decoded with
    | run op body => exact hanswer hout
    | timed records => exact hanswer hout
  | compact hroute _ =>
    rw [hroute] at hmutation
    cases hmutation
  | compactFails _ _ => cases hout
  | reads hroute _ =>
    rw [hroute] at hmutation
    cases hmutation
  | runs body hroute _ _ | compacts body hroute _ =>
    rcases hroute with hroute | hroute <;> rw [hroute] at hmutation <;> cases hmutation

/-- A request whose receipt is still to be written is on a route that writes it after the answer. -/
def Server.Recording (s : Server) : Prop :=
  ∀ i q response, s.flights i = some ⟨q, .unrecorded response⟩ →
    q.route.recordsReceiptAfterResponse = true

namespace Server.Recording

variable {s s' : Server}

theorem clear (h : s.Recording) (i : ℕ) : (s.clear i).Recording :=
  fun j q response hj => h j q response (of_update_none hj).2

theorem setFlight (h : s.Recording) {i : ℕ} {flight : Flight}
    (hflight : ∀ response, flight.phase = .unrecorded response →
      flight.request.route.recordsReceiptAfterResponse = true) :
    (s.setFlight i flight).Recording := by
  intro j q response hj
  rcases eq_or_of_update_some hj with ⟨-, rfl⟩ | ⟨-, hold⟩
  · exact hflight response rfl
  · exact h j q response hold

theorem congr (h : s.Recording) (hflights : s'.flights = s.flights) : s'.Recording :=
  fun i q response hi => h i q response (hflights ▸ hi)

theorem answered (h : s.Recording) (i : ℕ) (q : Request) (response : String) :
    (s.answered i q response).Recording := by
  unfold Server.answered
  split_ifs with hkeyed hroute
  · exact h.setFlight fun _ _ => hroute
  · exact h.setFlight fun r hr => by cases hr
  · exact h.clear i

/-- Every step keeps it. -/
theorem step (h : s.Recording) {label : Label} (hstep : Step P s label s') : s'.Recording := by
  cases hstep with
  | @arrive s₁ i q _ hactor =>
    have hflights : s₁.flights = s.flights := by
      rcases Server.forActor_cases hactor with rfl | ⟨_, _, _, _, _, rfl⟩
      · rfl
      · rfl
    exact (h.congr hflights).setFlight fun r hr => by cases hr
  | refuse i q _ _ => exact h
  | replay _ _ => exact h.clear _
  | miss _ _ => exact h.setFlight fun r hr => by cases hr
  | @execute i q _ _ response _ _ _ =>
    exact (h.congr (Server.setDb_flights ..)).answered i q response
  | fail _ _ _ => exact (h.congr (Server.setDb_flights ..)).clear _
  | record _ _ _ _ => exact (h.congr (Server.setDb_flights ..)).setFlight fun r hr => by cases hr
  | unrecord _ _ _ _ => exact (h.congr (Server.setDb_flights ..)).clear _
  | insert _ _ => exact (h.congr rfl).clear _
  | drop _ _ => exact h.clear _
  | restart _ _ hopen =>
    obtain ⟨-, -, -, -, -, -, hnone⟩ := openServerState_eq hopen
    intro i q response hi
    rw [hnone] at hi
    cases hi

/-- The key of a mutating route is not the key of such a request. -/
theorem ne_key (h : s.Recording) {i : ℕ} {q : Request} {response : String}
    (hi : s.flights i = some ⟨q, .unrecorded response⟩) (hmutation : key.route.isMutation = true) :
    q.cacheKey ≠ some key := by
  intro hkey
  have hroute := h i q response hi
  rw [(Request.cacheKey_eq_some hkey).1] at hmutation
  revert hmutation hroute
  cases q.route <;> decide

end Server.Recording

/-! ### Steps -/

namespace Remembers

variable {trace : List Label} {s s' : Server} {label : Label}

/-- The cache has the answer of a step. -/
def Answers (P : ServerFormat) (key : CacheKey) (s : Server) (label : Label) : Prop :=
  ∀ q response, label.answer = some (q, response) → q.cacheKey = some key → isOk response = true →
    s.cache.get key = some ⟨q.bodyHash P, response⟩

theorem answers_of_none (hanswer : label.answer = none) : Answers P key s label := by
  intro q response hq
  rw [hanswer] at hq
  cases hq

theorem answers_of {q : Request} {response : String} (hanswer : label.answer = some (q, response))
    (h : q.cacheKey = some key → isOk response = false) : Answers P key s label := by
  intro q' response' hq' hkey hok
  rw [hanswer] at hq'
  obtain ⟨rfl, rfl⟩ := Prod.mk.inj (Option.some.inj hq')
  rw [h hkey] at hok
  cases hok

/-- While the cache does not have the key, nothing has been answered. -/
theorem answers_of_fresh (h : Remembers P key trace s) (hnone : s.cache.get key = none)
    (s' : Server) : ∀ label ∈ trace, Answers P key s' label := by
  intro label hmem q response hq hkey hok
  have hsome := h.answers label hmem q response hq hkey hok
  rw [hnone] at hsome
  cases hsome

/-- A step that keeps what is known about the key, and the requests with it. -/
theorem frame (h : Remembers P key trace s) (hsound : s'.Sound P) (hlabel : Answers P key s label)
    (hrecorded : s'.recorded key = s.recorded key) (hcache : s'.cache.get key = s.cache.get key)
    (hkeyed : s'.keyed P key = s.keyed P key) : Remembers P key (trace ++ [label]) s' := by
  refine ⟨hsound, hkeyed ▸ h.alone, ?_, ?_, ?_, ?_, ?_, ?_⟩
  · rw [hkeyed, hrecorded]
    exact h.unknown
  · rw [hkeyed, hrecorded]
    exact h.carried
  · rw [hkeyed, hrecorded, hcache]
    exact h.cached
  · rw [hrecorded, hcache]
    exact h.logged
  · rw [hkeyed, hcache]
    exact h.fresh
  · rw [hcache]
    exact forall_mem_snoc h.answers hlabel

/-- A request with the key goes past the lookup, alone. -/
theorem missed (h : Remembers P key trace s) (hsound : s'.Sound P) {i : ℕ}
    (hlabel : label.answer = none) (hnone : ∀ j, s.keyed P key j = none)
    (hmiss : s.cache.get key = none) (hrecorded : s'.recorded key = s.recorded key)
    (hcache : s'.cache.get key = s.cache.get key)
    (hkeyed : s'.keyed P key = Function.update (s.keyed P key) i (some none)) :
    Remembers P key (trace ++ [label]) s' := by
  have hunknown : s.recorded key = none := by
    cases hentry : s.recorded key with
    | none => rfl
    | some entry =>
      have hin := h.cached hnone entry hentry
      rw [hmiss] at hin
      cases hin
  have honly : ∀ j c, s'.keyed P key j = some c → j = i ∧ c = none := by
    intro j c hj
    rw [hkeyed] at hj
    rcases eq_or_of_update_some hj with hnew | ⟨-, hold⟩
    · exact hnew
    · rw [hnone] at hold
      cases hold
  refine ⟨hsound, ?_, fun _ _ => hrecorded.trans hunknown, ?_, ?_, ?_, ?_, ?_⟩
  · intro j j' hj hj'
    obtain ⟨c, hc⟩ := Option.ne_none_iff_exists'.1 hj
    obtain ⟨c', hc'⟩ := Option.ne_none_iff_exists'.1 hj'
    exact (honly j c hc).1.trans (honly j' c' hc').1.symm
  · intro j entry hj
    cases (honly j _ hj).2
  · intro _ entry hentry
    rw [hrecorded, hunknown] at hentry
    cases hentry
  · intro entry hentry
    rw [hcache, hmiss] at hentry
    cases hentry
  · exact fun _ _ => hcache.trans hmiss
  · exact forall_mem_snoc (h.answers_of_fresh hmiss s') (answers_of_none hlabel)

/-- A request with the key is gone before its operation. -/
theorem gone (h : Remembers P key trace s) (hsound : s'.Sound P) {i : ℕ}
    (hlabel : Answers P key s label) (hi : s.keyed P key i = some none)
    (hrecorded : s'.recorded key = s.recorded key) (hcache : s'.cache.get key = s.cache.get key)
    (hkeyed : s'.keyed P key = Function.update (s.keyed P key) i none) :
    Remembers P key (trace ++ [label]) s' := by
  have hunknown : s.recorded key = none := h.unknown i hi
  have hpast : ∀ j c, s'.keyed P key j = some c → s.keyed P key j = some c := by
    intro j c hj
    rw [hkeyed] at hj
    exact (of_update_none hj).2
  have hpast' : ∀ j, s'.keyed P key j ≠ none → s.keyed P key j ≠ none := by
    intro j hj
    obtain ⟨c, hc⟩ := Option.ne_none_iff_exists'.1 hj
    rw [hpast j c hc]
    exact Option.some_ne_none c
  refine ⟨hsound, ?_, fun _ _ => hrecorded.trans hunknown, ?_, ?_, ?_, ?_, ?_⟩
  · exact fun j j' hj hj' => h.alone j j' (hpast' j hj) (hpast' j' hj')
  · intro j entry hj
    rw [hrecorded]
    exact h.carried j entry (hpast j _ hj)
  · intro _ entry hentry
    rw [hrecorded, hunknown] at hentry
    cases hentry
  · rw [hrecorded, hcache]
    exact h.logged
  · rw [hcache]
    exact fun j hj => h.fresh j (hpast' j hj)
  · rw [hcache]
    exact forall_mem_snoc h.answers hlabel

/-- The operation of a request with the key is executed, and its commit has the receipt. -/
theorem executed (h : Remembers P key trace s) (hsound : s'.Sound P) {i : ℕ}
    (entry : IdempotencyEntry) (hlabel : label.answer = none) (hi : s.keyed P key i = some none)
    (hrecorded : s'.recorded key = some entry) (hcache : s'.cache.get key = s.cache.get key)
    (hkeyed : s'.keyed P key = Function.update (s.keyed P key) i (some (some entry))) :
    Remembers P key (trace ++ [label]) s' := by
  have hi' : s.keyed P key i ≠ none := by
    rw [hi]
    exact Option.some_ne_none _
  have honly : ∀ j c, s'.keyed P key j = some c → j = i ∧ c = some entry := by
    intro j c hj
    rw [hkeyed] at hj
    rcases eq_or_of_update_some hj with hnew | ⟨hne, hold⟩
    · exact hnew
    · have hj' : s.keyed P key j ≠ none := by
        rw [hold]
        exact Option.some_ne_none _
      exact absurd (h.alone j i hj' hi') hne
  refine ⟨hsound, ?_, ?_, ?_, ?_, ?_, ?_, ?_⟩
  · intro j j' hj hj'
    obtain ⟨c, hc⟩ := Option.ne_none_iff_exists'.1 hj
    obtain ⟨c', hc'⟩ := Option.ne_none_iff_exists'.1 hj'
    exact (honly j c hc).1.trans (honly j' c' hc').1.symm
  · intro j hj
    cases (honly j _ hj).2
  · intro j entry' hj
    obtain rfl := Option.some.inj (honly j _ hj).2
    exact hrecorded
  · intro hnone
    have hsome := hnone i
    rw [hkeyed, Function.update_self] at hsome
    cases hsome
  · intro entry' hentry
    rw [hcache] at hentry
    rw [h.fresh i hi'] at hentry
    cases hentry
  · exact fun _ _ => hcache.trans (h.fresh i hi')
  · exact forall_mem_snoc (h.answers_of_fresh (h.fresh i hi') s') (answers_of_none hlabel)

/-- The answer of a request with the key goes into the cache. -/
theorem inserted (h : Remembers P key trace s) (hsound : s'.Sound P) {i : ℕ}
    {entry : IdempotencyEntry} (hlabel : Answers P key s' label)
    (hi : s.keyed P key i = some (some entry)) (hrecorded : s'.recorded key = s.recorded key)
    (hcache : s'.cache.get key = some entry)
    (hkeyed : s'.keyed P key = Function.update (s.keyed P key) i none) :
    Remembers P key (trace ++ [label]) s' := by
  have hknown : s.recorded key = some entry := h.carried i entry hi
  have hi' : s.keyed P key i ≠ none := by
    rw [hi]
    exact Option.some_ne_none _
  have hnone : ∀ j, s'.keyed P key j = none := by
    intro j
    by_contra hj
    obtain ⟨c, hc⟩ := Option.ne_none_iff_exists'.1 hj
    rw [hkeyed] at hc
    obtain ⟨hne, hold⟩ := of_update_none hc
    have hj' : s.keyed P key j ≠ none := by
      rw [hold]
      exact Option.some_ne_none _
    exact hne (h.alone j i hj' hi')
  refine ⟨hsound, fun j _ hj => absurd (hnone j) hj, ?_, ?_, ?_, ?_, ?_, ?_⟩
  · intro j hj
    rw [hnone] at hj
    cases hj
  · intro j entry' hj
    rw [hnone] at hj
    cases hj
  · intro _ entry' hentry
    rw [hrecorded, hknown] at hentry
    rw [hcache, hentry]
  · intro entry' hentry
    rw [hcache] at hentry
    rw [hrecorded, hknown, hentry]
  · exact fun j hj => absurd (hnone j) hj
  · exact forall_mem_snoc (h.answers_of_fresh (h.fresh i hi') s') hlabel

/-- The server starts with the cache that the log gives, and the log has kept what it had. -/
theorem restarted (h : Remembers P key trace s) (hsound : s'.Sound P) (hlabel : label.answer = none)
    (hnone : ∀ j, s'.keyed P key j = none) (hcache : s'.cache.get key = s'.recorded key)
    (hrecorded : s'.recorded key = s.recorded key ∨ s.recorded key = none) :
    Remembers P key (trace ++ [label]) s' := by
  refine ⟨hsound, fun j _ hj => absurd (hnone j) hj, ?_, ?_, ?_, ?_, ?_, ?_⟩
  · intro j hj
    rw [hnone] at hj
    cases hj
  · intro j entry hj
    rw [hnone] at hj
    cases hj
  · intro _ entry hentry
    rw [hcache, hentry]
  · intro entry hentry
    rw [← hcache, hentry]
  · exact fun j hj => absurd (hnone j) hj
  · refine forall_mem_snoc (fun label' hmem q response hq hkey hok => ?_) (answers_of_none hlabel)
    have hlogged := h.logged _ (h.answers label' hmem q response hq hkey hok)
    rcases hrecorded with hsame | hunknown
    · rw [hcache, hsame, hlogged]
    · rw [hunknown] at hlogged
      cases hlogged

/-- The log of the data root after an operation of a request. -/
theorem recorded_setDb {q : Request} {db db' : Db} (hdb : s.db q.shard = some db)
    {more : List IdempotencyReceipt}
    (hreceipts : db'.idempotencyReceipts = db.idempotencyReceipts ++ more)
    (hmore : ∀ receipt ∈ more, CacheKey.fromReceipt receipt ≠ key) :
    (s.setDb q.shard db').recorded key = s.recorded key := by
  by_cases hdefault : q.shard.isDefault = true
  · rw [Server.db, if_pos hdefault] at hdb
    obtain rfl := Option.some.inj hdb
    refine recorded_append_of_ne ?_ hmore
    rw [Server.setDb_default hdefault]
    exact hreceipts
  · refine recorded_of_receipts_eq ?_
    rw [Server.setDb_root, if_neg hdefault]

theorem answered_other (s : Server) {i : ℕ} {q : Request} (hother : q.cacheKey ≠ some key)
    (hat : s.keyed P key i = none) (response : String) :
    (s.answered i q response).keyed P key = s.keyed P key ∧
      (s.answered i q response).recorded key = s.recorded key ∧
      (s.answered i q response).cache = s.cache := by
  unfold Server.answered
  split_ifs
  · exact ⟨keyed_setFlight_self ((asKeyed_of_ne hother _).trans hat.symm), rfl, rfl⟩
  · exact ⟨keyed_setFlight_self ((asKeyed_of_ne hother _).trans hat.symm), rfl, rfl⟩
  · exact ⟨keyed_clear_self hat, rfl, rfl⟩

/-- An operation of another key. -/
theorem execute_other (h : Remembers P key trace s) {i : ℕ} {q : Request} {db db' : Db}
    {response : String} (hi : s.flights i = some ⟨q, .missed⟩) (hdb : s.db q.shard = some db)
    (hsection : EngineSection P q db (.ok response) db')
    (hsound : ((s.setDb q.shard db').answered i q response).Sound P)
    (hother : q.cacheKey ≠ some key) :
    Remembers P key (trace ++ [.executed i q response])
      ((s.setDb q.shard db').answered i q response) := by
  obtain ⟨dir, hreach⟩ := h.sound.db hdb
  have hsame : (s.setDb q.shard db').keyed P key = s.keyed P key :=
    keyed_congr (s.setDb_flights q.shard db')
  have hat : (s.setDb q.shard db').keyed P key i = none := by
    rw [hsame, keyed_of_flight hi, asKeyed_of_ne hother]
  obtain ⟨hkeyed, hrecorded, hcache⟩ := answered_other _ hother hat response
  have hmore : ∀ receipt ∈ q.receiptsFor P response, CacheKey.fromReceipt receipt ≠ key := by
    rintro receipt hreceipt rfl
    exact hother (Request.fromReceipt_receiptsFor hreceipt)
  have hlog := recorded_setDb hdb ((hsection.spec hreach).receipts response rfl) hmore
  refine h.frame hsound ?_ (hrecorded.trans hlog) ?_ (hkeyed.trans hsame)
  · intro q' response' hq' hkey
    rw [Label.answer] at hq'
    split_ifs at hq'
    obtain ⟨rfl, -⟩ := Prod.mk.inj (Option.some.inj hq')
    exact absurd hkey hother
  · rw [hcache, Server.setDb_cache]

/-- An operation of the key. -/
theorem execute_key (h : Remembers P key trace s) (hdefault : key.shard.isDefault = true)
    (hmutation : key.route.isMutation = true) {i : ℕ} {q : Request} {db db' : Db}
    {response : String} (hi : s.flights i = some ⟨q, .missed⟩) (hdb : s.db q.shard = some db)
    (hsection : EngineSection P q db (.ok response) db')
    (hsound : ((s.setDb q.shard db').answered i q response).Sound P)
    (hkey : q.cacheKey = some key) (htimed : q.isTimed P = false) :
    Remembers P key (trace ++ [.executed i q response])
      ((s.setDb q.shard db').answered i q response) := by
  obtain ⟨hroute, hshard⟩ := Request.cacheKey_eq_some hkey
  rw [hroute] at hmutation
  rw [hshard] at hdefault
  obtain ⟨dir, hreach⟩ := h.sound.db hdb
  obtain ⟨hok, decoded, hdecode⟩ := hsection.decoded hmutation
  have hat : s.keyed P key i = some none := by
    rw [keyed_of_flight hi, asKeyed_past hkey rfl]
    rfl
  have hlate : q.route.recordsReceiptAfterResponse = false := by
    revert hmutation
    cases q.route <;> decide
  have hanswer : (Label.executed i q response).answer = none := by
    simp [Label.answer, hkey, hok]
  rw [Server.answered_mutation hkey hok hlate] at hsound ⊢
  rw [Server.db, if_pos hdefault] at hdb
  obtain rfl := Option.some.inj hdb
  have hreceipts := (hsection.spec hreach).receipts response rfl
  cases decoded with
  | timed records =>
    rw [Request.isTimed, hdecode] at htimed
    cases htimed
  | run op body =>
    rw [Request.receiptsFor_run hkey hdecode] at hreceipts
    refine h.executed hsound ⟨q.bodyHash P, response⟩ hanswer hat ?_ ?_ ?_
    · rw [Server.recorded, Server.setFlight_root, Server.setDb_default hdefault, hreceipts]
      exact IdempotencyCacheState.get_fromReceipts_snoc ..
    · rw [Server.setFlight_cache, Server.setDb_cache]
    · rw [keyed_setFlight, keyed_congr (s.setDb_flights q.shard db'), asKeyed_past hkey rfl]
      rfl

/-- What the log of the data root says about the key when the server stops: what it said, or nothing
was said before. -/
theorem halts (h : Remembers P key trace s) (hrecording : s.Recording)
    (hmutation : key.route.isMutation = true) {disk : Disk} {db : Db}
    (hhalts : Halts P s s.root (fun key => key.isDefault = true) disk)
    (hopen : Db.open P.toEngineFormat disk = .ok db) :
    (IdempotencyCacheState.fromReceipts db.idempotencyReceipts).get key = s.recorded key ∨
      s.recorded key = none := by
  obtain ⟨dir, hreach⟩ := h.sound.root
  cases hhalts with
  | idle =>
    rw [hreach.receipts_reopen hopen]
    exact .inl rfl
  | @inside i flight op plan reply done k n hi hshard hruns hplan hrun =>
    rcases hreach.receipts_crash hplan hrun k n hopen with hsame | hmore
    · rw [hsame]
      exact .inl rfl
    obtain ⟨q, phase⟩ := flight
    by_cases hkey : q.cacheKey = some key ∧ phase = .missed
    · -- The operation of the request with the key is in the log, and was not before.
      obtain ⟨hkey, rfl⟩ := hkey
      right
      refine h.unknown i ?_
      rw [keyed_of_flight hi, asKeyed_past hkey rfl]
      rfl
    · left
      rw [hmore]
      refine IdempotencyCacheState.get_fromReceipts_append_of_ne fun receipt hreceipt hsame => ?_
      subst hsame
      cases phase with
      | arrived => exact hruns.elim
      | ready response => exact hruns.elim
      | missed =>
        rcases hruns with ⟨body, hdecode⟩ | ⟨records, -, rfl⟩ | ⟨-, -, hnone⟩
        · rw [(Request.decode_run hdecode _).1] at hreceipt
          exact hkey ⟨Request.fromReceipt_receiptsFor hreceipt, rfl⟩
        · cases hreceipt
        · rw [hnone] at hreceipt
          cases hreceipt
      | unrecorded response =>
        obtain ⟨key', hkey', rfl⟩ := hruns
        obtain rfl := List.mem_singleton.1 hreceipt
        exact hrecording.ne_key hi hmutation hkey'

/-- **Every step keeps it.** -/
theorem step (h : Remembers P key trace s) (hrecording : s.Recording)
    (hdefault : key.shard.isDefault = true) (hmutation : key.route.isMutation = true)
    (hturn : InTurn P key s label) (hstep : Step P s label s') :
    Remembers P key (trace ++ [label]) s' := by
  have hsound : s'.Sound P := h.sound.step hstep
  cases hstep with
  | @arrive s₁ i q hnone hactor =>
    have hsame : s₁.flights = s.flights ∧ s₁.cache = s.cache ∧ s₁.root = s.root := by
      rcases Server.forActor_cases hactor with rfl | ⟨_, _, _, _, _, rfl⟩
      · exact ⟨rfl, rfl, rfl⟩
      · exact ⟨rfl, rfl, rfl⟩
    have hkeyed : s₁.keyed P key = s.keyed P key := keyed_congr hsame.1
    have hat : s₁.keyed P key i = none := by
      rw [Server.keyed, Server.project, hsame.1, hnone]
      rfl
    refine h.frame hsound (answers_of_none rfl) ?_ (by rw [Server.setFlight_cache, hsame.2.1]) ?_
    · exact recorded_of_receipts_eq (by rw [Server.setFlight_root, hsame.2.2])
    · rw [keyed_setFlight_self ((asKeyed_arrived q).trans hat.symm), hkeyed]
  | refuse i q _ _ =>
    exact h.frame hsound (answers_of rfl fun _ => isOk_badRequest _) rfl rfl rfl
  | @replay i q response hi hlookup =>
    have hat : s.keyed P key i = none := (keyed_of_flight hi).trans (asKeyed_arrived q)
    refine h.frame hsound ?_ rfl rfl (keyed_clear_self hat)
    intro q' response' hq' hkey hok
    obtain ⟨rfl, rfl⟩ := Prod.mk.inj (Option.some.inj hq')
    exact Server.get_of_lookup_ok hkey hlookup hok
  | @miss i q hi hlookup =>
    have hat : s.keyed P key i = none := (keyed_of_flight hi).trans (asKeyed_arrived q)
    by_cases hkey : q.cacheKey = some key
    · refine h.missed hsound rfl (hturn hkey) (Server.get_of_lookup_none hkey hlookup) rfl rfl
        (i := i) ?_
      rw [keyed_setFlight, asKeyed_past hkey rfl]
      rfl
    · exact h.frame hsound (answers_of_none rfl) rfl rfl
        (keyed_setFlight_self ((asKeyed_of_ne hkey _).trans hat.symm))
  | @execute i q db db' response hi hdb hsection =>
    by_cases hkey : q.cacheKey = some key
    · exact h.execute_key hdefault hmutation hi hdb hsection hsound hkey (hturn hkey)
    · exact h.execute_other hi hdb hsection hsound hkey
  | @fail i q db db' e hi hdb hsection =>
    obtain ⟨dir, hreach⟩ := h.sound.db hdb
    rw [(hsection.spec hreach).failed _ rfl, Server.setDb_self hdb] at hsound ⊢
    have hlabel : Answers P key s (.failed i q (badRequest P e)) :=
      answers_of rfl fun _ => isOk_badRequest _
    by_cases hkey : q.cacheKey = some key
    · refine h.gone hsound (i := i) hlabel ?_ rfl rfl (keyed_clear s i)
      rw [keyed_of_flight hi, asKeyed_past hkey rfl]
      rfl
    · refine h.frame hsound hlabel rfl rfl (keyed_clear_self ?_)
      rw [keyed_of_flight hi, asKeyed_of_ne hkey]
  | @record i q db db' response key' reply hi hkey' hdb hrun =>
    have hkey := hrecording.ne_key hi hmutation
    obtain ⟨dir, hreach⟩ := h.sound.db hdb
    obtain ⟨entries, hsync⟩ := hreach.synced
    have hreceipts := ((hsync.run_receipts hrun).2 reply rfl).1
    have hsame : (s.setDb q.shard db').keyed P key = s.keyed P key :=
      keyed_congr (s.setDb_flights q.shard db')
    have hat : (s.setDb q.shard db').keyed P key i = none := by
      rw [hsame, keyed_of_flight hi, asKeyed_of_ne hkey]
    refine h.frame hsound (answers_of_none rfl) ?_ ?_ ?_
    · refine (recorded_of_receipts_eq rfl).trans (recorded_setDb hdb hreceipts fun receipt hr => ?_)
      obtain rfl := List.mem_singleton.1 hr
      rintro rfl
      exact hkey hkey'
    · rw [Server.setFlight_cache, Server.setDb_cache]
    · rw [keyed_setFlight_self ((asKeyed_of_ne hkey _).trans hat.symm), hsame]
  | @unrecord i q db db' response key' e hi hkey' hdb hrun =>
    have hkey := hrecording.ne_key hi hmutation
    obtain ⟨dir, hreach⟩ := h.sound.db hdb
    obtain ⟨entries, hsync⟩ := hreach.synced
    rw [(hsync.run_receipts hrun).1 e rfl, Server.setDb_self hdb] at hsound ⊢
    refine h.frame hsound (answers_of rfl fun _ => isOk_badRequest _) rfl rfl (keyed_clear_self ?_)
    rw [keyed_of_flight hi, asKeyed_of_ne hkey]
  | @insert i q response key' hi hkey' =>
    by_cases hkey : q.cacheKey = some key
    · obtain rfl : key' = key := Option.some.inj (hkey'.symm.trans hkey)
      have hat : s.keyed P key' i = some (some ⟨q.bodyHash P, response⟩) := by
        rw [keyed_of_flight hi, asKeyed_past hkey rfl]
        rfl
      refine h.inserted hsound ?_ hat rfl (IdempotencyCacheState.get_insert_self ..)
        (keyed_clear _ i)
      intro q' response' hq' _ _
      obtain ⟨rfl, rfl⟩ := Prod.mk.inj (Option.some.inj hq')
      exact IdempotencyCacheState.get_insert_self ..
    · have hne : key ≠ key' := by
        rintro rfl
        exact hkey hkey'
      refine h.frame hsound ?_ rfl (IdempotencyCacheState.get_insert_of_ne _ hne _)
        (keyed_clear_self (s := { s with cache := _ }) ?_)
      · exact answers_of rfl fun hk => absurd hk hkey
      · exact (keyed_of_flight hi).trans (asKeyed_of_ne hkey _)
  | @drop i flight hi hready =>
    obtain ⟨q, phase⟩ := flight
    by_cases hkeyed : s.keyed P key i = none
    · exact h.frame hsound (answers_of_none rfl) rfl rfl (keyed_clear_self hkeyed)
    · refine h.gone hsound (i := i) (answers_of_none rfl) ?_ rfl rfl (keyed_clear s i)
      rw [keyed_of_flight hi] at hkeyed ⊢
      cases phase with
      | arrived => exact absurd (asKeyed_arrived q) hkeyed
      | ready response => exact absurd rfl (hready response)
      | unrecorded response =>
        exact absurd (asKeyed_of_ne (hrecording.ne_key hi hmutation) _) hkeyed
      | missed =>
        have hkey : q.cacheKey = some key := by
          by_contra hne
          exact hkeyed (asKeyed_of_ne hne _)
        rw [asKeyed_past hkey rfl]
        rfl
  | @restart disk dirs _ hhalts _ hopen =>
    obtain ⟨db, hdb, hroot, -, -, hcache, hnone⟩ := openServerState_eq hopen
    have hreceipts : s'.root.idempotencyReceipts = db.idempotencyReceipts := by
      obtain ⟨dir, hreach⟩ := h.sound.root
      obtain ⟨dir', hreach'⟩ := hhalts.reopens hreach db hdb
      exact hreach'.receipts_reopen hroot
    have hlog : (IdempotencyCacheState.fromReceipts db.idempotencyReceipts).get key =
        s'.recorded key := by
      rw [Server.recorded, hreceipts]
    refine h.restarted hsound rfl (fun j => ?_) (by rw [hcache, hlog]) ?_
    · rw [Server.keyed, Server.project, hnone]
      rfl
    · rw [← hlog]
      exact h.halts hrecording hmutation hhalts hdb

end Remembers

/-! ### Whole requests -/

/-- The request that a step is about. -/
def Label.request : Label → Option Request
  | .arrived _ q | .refused _ q _ | .replayed _ q _ | .missed _ q | .executed _ q _ | .failed _ q _
  | .recorded _ q | .unrecordable _ q _ | .inserted _ q _ => some q
  | .dropped _ | .restarted => none

namespace Remembers

variable {trace : List Label} {s : Server}

end Remembers

/-- What has just been started remembers the log. -/
theorem Remembers.started {dir : String} {s : Server}
    (h : openServerState P (Disk.empty dir) (fun path => some (Disk.empty path)) = .ok s) :
    Remembers P key [] s ∧ s.Recording := by
  obtain rfl := Except.ok.inj ((openServerState_empty dir).symm.trans h)
  have hkeyed : ∀ i, (Server.initial P dir).keyed P key i = none := fun _ => rfl
  refine ⟨⟨.started h, fun i _ hi => absurd (hkeyed i) hi, fun _ _ => rfl, ?_, ?_, ?_, ?_, ?_⟩, ?_⟩
  · exact fun i entry hi => by cases hi
  · exact fun _ entry hentry => by cases hentry
  · exact fun entry hentry => by cases hentry
  · exact fun i hi => absurd (hkeyed i) hi
  · exact fun label hmem => absurd hmem List.not_mem_nil
  · exact fun i q response hi => by cases hi

end TraceDB
