import TraceDB.Server.Framing
import TraceDB.Server.Idempotency

/-!
# The client of the server

The command line sends a request again when an attempt fails: requests that only read, and requests
on some of the mutating routes when they have an idempotency key.  A request that is given up can
still be on its way, or be served while the next attempt is made.

* `ClientCall.attempts_eq_one` : what neither only reads nor has a cache key at the server is sent
  once.
* `Earned` : along runs that keep retries apart, a good answer was paid for by an operation.
* `Exchange.Undisturbed` : what a call with a key takes for granted of its retries.
* `call_executes_once` : a call is sent as often as it may be, and executes at most one operation,
  exactly one if it returns a value, and none if it only reads.
-/

namespace TraceDB

/-! ### Attempts -/

/-- `HttpApiError`. -/
inductive HttpApiError where
  | request (method path message : String)
  | invalidResponse (method path message : String)
  | httpStatus (method path : String) (status : ℕ) (body : String)

/-- `http_api_error_is_retryable`. -/
def HttpApiError.isRetryable : HttpApiError → Bool
  | .request _ _ _ => true
  | .invalidResponse _ _ _ => false
  | .httpStatus _ _ status _ => 500 ≤ status

/-- `strip_query`. -/
def stripQuery (path : String) : String :=
  match Text.splitOnce '?' path with
  | some (path, _) => path
  | none => path

/-- `http_api_is_retry_safe_request`. -/
def httpApiIsRetrySafeRequest (method path : String) : Bool :=
  method = "GET" || method = "POST" &&
    ["/v1/records/get", "/v1/records/scan", "/v1/query", "/v1/explain"].contains (stripQuery path)

/-- `http_api_is_idempotent_retry_request`. -/
def httpApiIsIdempotentRetryRequest (method path : String) : Bool :=
  method = "POST" &&
    ["/v1/schema/apply", "/v1/records/put-batch", "/v1/records/delete", "/v1/admin/compact",
      "/v1/admin/snapshot", "/v1/admin/restore"].contains (stripQuery path)

/-- How often `HttpApiClientConfig` lets a request be sent again. -/
structure HttpApiRetries where
  safeRetries : UInt8
  idempotencyRetries : UInt8

/-- `saturating_add(1)`. -/
def oneMore (retries : UInt8) : ℕ := min (retries.toNat + 1) 255

/-- `request_attempts`. -/
def requestAttempts (config : HttpApiRetries) (method path : String)
    (idempotencyKey : Option String) : ℕ :=
  if 0 < config.idempotencyRetries ∧ httpApiIsIdempotentRetryRequest method path = true ∧
      idempotencyKey.any (· ≠ "") = true then oneMore config.idempotencyRetries
  else if httpApiIsRetrySafeRequest method path = true then oneMore config.safeRetries
  else 1

/-- `serde_json::from_slice` of a body, and the status of a response. -/
structure ClientFormat where
  fromSlice : String → Except String Value
  status : String → ℕ

/-- `Response::bytes`. -/
def responseBody (response : String) : String :=
  String.ofList ((afterFirst ("\r\n\r\n".toList) response.toList).getD [])

/-- A call of `request_json_with_options`: a method and a path, and what the server reads from its
requests.  The configured `url` has no path, so that `request_path` adds none. -/
structure ClientCall where
  config : HttpApiRetries
  path : String
  request : Request
  path_eq : request.path = routePath path

namespace ClientCall

variable (X : ClientFormat) (call : ClientCall)

/-- How often the request is sent at most. -/
def attempts : ℕ :=
  requestAttempts call.config call.request.method call.path call.request.idempotencyKey

/-- The check of the key in `request_json_once`. -/
def isSendable : Bool :=
  call.request.idempotencyKey.all fun key => key ≠ "" &&
    !key.toList.any fun c => c = '\r' || c = '\n'

/-- The end of `request_json_once`.  The server answers with status 200, or with none of the
successful ones. -/
def outcome (response : String) : Except HttpApiError Value :=
  let body := responseBody response
  if isOk response = true then
    if body.toList.all isAsciiWhitespace = true then .ok .null
    else
      (X.fromSlice body).mapError fun error =>
        .invalidResponse call.request.method call.path ("invalid JSON body: " ++ error)
  else .error (.httpStatus call.request.method call.path (X.status response) body)

/-- Where a call stands. -/
inductive Phase where
  | starting (attempt : ℕ)
  | waiting (attempt : ℕ)
  | returned (result : Except HttpApiError Value)

/-- The loop of `request_json_with_options` after an attempt. -/
def after (attempt : ℕ) : Except HttpApiError Value → Phase
  | .ok value => .returned (.ok value)
  | .error error =>
    if error.isRetryable = true ∧ attempt + 1 < call.attempts then .starting (attempt + 1)
    else .returned (.error error)

variable {call X}

theorem after_starting {attempt next : ℕ} {result : Except HttpApiError Value}
    (h : call.after attempt result = .starting next) :
      next = attempt + 1 ∧ next < call.attempts := by
  unfold after at h
  split at h
  · cases h
  · next error =>
    split_ifs at h with hretry
    obtain rfl := Phase.starting.inj h
    exact ⟨rfl, hretry.2⟩

theorem after_returned_ok {attempt : ℕ} {result : Except HttpApiError Value} {value : Value}
    (h : call.after attempt result = .returned (.ok value)) : result = .ok value := by
  unfold after at h
  split at h
  · exact Phase.returned.inj h
  · split_ifs at h
    cases Phase.returned.inj h

theorem outcome_eq_ok {response : String} {value : Value}
    (h : call.outcome X response = .ok value) :
    isOk response = true := by
  unfold outcome at h
  by_contra hfails
  rw [if_neg hfails] at h
  cases h

/-! ### What both sides make of a path -/

end ClientCall

/-! ### Flights -/

section Steps

variable {P : ServerFormat} {s s' : Server} {label : Label}

/-- The step lets a request in, or turns it away at the door. -/
def Label.isArrival : Label → Bool
  | .arrived _ _ | .refused _ _ _ => true
  | _ => false

/-- The flights of a step are those before it, one of which it may have moved or ended, and one that
has arrived. -/
theorem Step.flight_before (h : Step P s label s') {j : ℕ} {flight : Flight}
    (hj : s'.flights j = some flight) :
    (∃ flight', s.flights j = some flight' ∧ flight'.request = flight.request ∧
      (label.flight ≠ some j → flight' = flight)) ∨ label = .arrived j flight.request := by
  have hset : ∀ {s₁ : Server} {i : ℕ} {q : Request} {before after : Phase}, s₁.flights = s.flights →
      s.flights i = some ⟨q, before⟩ → (s₁.setFlight i ⟨q, after⟩).flights j = some flight →
      label.flight = some i → ∃ flight', s.flights j = some flight' ∧
        flight'.request = flight.request ∧
        (label.flight ≠ some j → flight' = flight) := by
    intro s₁ i q before after hflights hi hj hlabel
    by_cases hne : j = i
    · subst hne
      rw [Server.setFlight_flights_self] at hj
      obtain rfl := Option.some.inj hj
      exact ⟨_, hi, rfl, fun hother => absurd hlabel hother⟩
    · rw [Server.setFlight_flights_of_ne _ _ hne, hflights] at hj
      exact ⟨flight, hj, rfl, fun _ => rfl⟩
  have hclear : ∀ {s₁ : Server} {i : ℕ}, s₁.flights = s.flights →
      (s₁.clear i).flights j = some flight →
      ∃ flight', s.flights j = some flight' ∧ flight'.request = flight.request ∧
        (label.flight ≠ some j → flight' = flight) := by
    intro s₁ i hflights hj
    by_cases hne : j = i
    · subst hne
      rw [Server.clear_flights_self] at hj
      cases hj
    · rw [Server.clear_flights_of_ne _ hne, hflights] at hj
      exact ⟨flight, hj, rfl, fun _ => rfl⟩
  cases h with
  | @arrive s₁ i q hnone hactor =>
    have hflights : s₁.flights = s.flights := by
      rcases Server.forActor_cases hactor with rfl | ⟨_, _, _, _, _, rfl⟩ <;> rfl
    by_cases hne : j = i
    · subst hne
      rw [Server.setFlight_flights_self] at hj
      obtain rfl := Option.some.inj hj
      exact .inr rfl
    · rw [Server.setFlight_flights_of_ne _ _ hne, hflights] at hj
      exact .inl ⟨flight, hj, rfl, fun _ => rfl⟩
  | refuse i q _ _ => exact .inl ⟨flight, hj, rfl, fun _ => rfl⟩
  | replay hi _ => exact .inl (hclear rfl hj)
  | miss hi _ => exact .inl (hset rfl hi hj rfl)
  | @execute i q db db' response hi hdb hsection =>
    unfold Server.answered at hj
    split_ifs at hj
    · exact .inl (hset (s.setDb_flights q.shard db') hi hj rfl)
    · exact .inl (hset (s.setDb_flights q.shard db') hi hj rfl)
    · exact .inl (hclear (s.setDb_flights q.shard db') hj)
  | @fail i q db db' e hi hdb hsection => exact .inl (hclear (s.setDb_flights q.shard db') hj)
  | @record i q db db' response key reply hi hkey hdb hrun =>
    exact .inl (hset (s.setDb_flights q.shard db') hi hj rfl)
  | @unrecord i q db db' response key e hi hkey hdb hrun =>
    exact .inl (hclear (s.setDb_flights q.shard db') hj)
  | @insert i q response key hi hkey =>
    have hflights : ({ s with
        cache := s.cache.insert key ⟨q.bodyHash P, response⟩ } : Server).flights =
        s.flights := rfl
    exact .inl (hclear hflights hj)
  | drop hi _ => exact .inl (hclear rfl hj)
  | @restart disk dirs s₁ _ _ hopen =>
    rw [openServerState, Except.bind_eq_ok_iff] at hopen
    obtain ⟨db, -, hopen⟩ := hopen
    rw [Except.bind_eq_ok_iff] at hopen
    obtain ⟨root, -, hserver⟩ := hopen
    obtain rfl := Except.ok.inj hserver
    cases hj

/-- An answer past the door is given to a request on its way. -/
theorem Step.answer_at (h : Step P s label s') (harrival : label.isArrival = false) {i : ℕ}
    (hi : label.flight = some i) {q : Request} {response : String}
    (hanswer : label.answer = some (q, response)) :
    ∃ phase, s.flights i = some ⟨q, phase⟩ := by
  have hsome : ∀ {i' : ℕ} {q' : Request} {phase : Phase} {response' : String},
      s.flights i' = some ⟨q', phase⟩ →
      some i' = some i → some (q', response') = some (q, response) → ∃ phase,
        s.flights i = some ⟨q, phase⟩ := by
    intro i' q' phase response' hflight heq hsame
    obtain rfl := Option.some.inj heq
    obtain ⟨rfl, -⟩ := Prod.mk.inj (Option.some.inj hsame)
    exact ⟨phase, hflight⟩
  cases h with
  | arrive _ _ _ _ | refuse _ _ _ _ => cases harrival
  | miss _ _ | record _ _ _ _ | drop _ _ | restart _ _ _ => cases hanswer
  | replay hflight _ => exact hsome hflight hi hanswer
  | fail hflight _ _ => exact hsome hflight hi hanswer
  | unrecord hflight _ _ _ => exact hsome hflight hi hanswer
  | insert hflight _ => exact hsome hflight hi hanswer
  | execute hflight _ _ =>
    rw [Label.answer] at hanswer
    split_ifs at hanswer
    exact hsome hflight hi hanswer

/-- A good answer to a request without a key is that of its operation. -/
theorem Step.answer_keyless (h : Step P s label s') {q : Request} {response : String}
    (hanswer : label.answer = some (q, response)) (hok : isOk response = true)
    (hkey : q.cacheKey = none) :
    ∃ i, label = .executed i q response := by
  cases h with
  | arrive i q _ _ | miss _ _ | record _ _ _ _ | drop _ _ | restart _ _ _ => cases hanswer
  | refuse i q _ _ =>
    obtain ⟨rfl, rfl⟩ := Prod.mk.inj (Option.some.inj hanswer)
    rw [isOk_badRequest] at hok
    cases hok
  | fail _ _ _ =>
    obtain ⟨rfl, rfl⟩ := Prod.mk.inj (Option.some.inj hanswer)
    rw [isOk_badRequest] at hok
    cases hok
  | unrecord _ hsome _ _ =>
    obtain ⟨rfl, rfl⟩ := Prod.mk.inj (Option.some.inj hanswer)
    rw [hkey] at hsome
    cases hsome
  | replay _ hlookup =>
    obtain ⟨rfl, rfl⟩ := Prod.mk.inj (Option.some.inj hanswer)
    rw [Server.lookup, hkey] at hlookup
    cases hlookup
  | insert _ hsome =>
    obtain ⟨rfl, rfl⟩ := Prod.mk.inj (Option.some.inj hanswer)
    rw [hkey] at hsome
    cases hsome
  | @execute i q' db db' response' _ _ _ =>
    rw [Label.answer] at hanswer
    split_ifs at hanswer
    obtain ⟨rfl, rfl⟩ := Prod.mk.inj (Option.some.inj hanswer)
    exact ⟨i, rfl⟩

/-- The operation of a request without a key is its last step. -/
theorem Step.executed_keyless {i : ℕ} {q : Request} {response : String}
    (h : Step P s (.executed i q response) s') (hkey : q.cacheKey = none) :
      s'.flights i = none := by
  cases h with
  | execute _ _ _ =>
    rw [Server.answered_keyless hkey]
    exact Server.clear_flights_self _ _

/-- A request comes in under a number that is free. -/
theorem Step.arrived_free {i : ℕ} {q : Request} (h : Step P s (.arrived i q) s') :
    s.flights i = none := by
  cases h with
  | arrive _ _ hnone _ => exact hnone

/-- A flight that has not just come in was there before. -/
theorem Step.flight_kept (h : Step P s label s') {j : ℕ} (hlabel : ∀ q, label ≠ .arrived j q)
    (hflight : s'.flights j ≠ none) : s.flights j ≠ none := by
  obtain ⟨flight, hflight⟩ := Option.ne_none_iff_exists'.1 hflight
  rcases h.flight_before hflight with ⟨flight', hbefore, -, -⟩ | harrived
  · rw [hbefore]
    exact Option.some_ne_none _
  · exact absurd harrived (hlabel _)

/-- An operation is executed for a request that the cache did not know. -/
theorem Step.executed_at {i : ℕ} {q : Request} {response : String}
    (h : Step P s (.executed i q response) s') :
    s.flights i = some ⟨q, .missed⟩ := by
  cases h with
  | execute hi _ _ => exact hi

end Steps

/-! ### What good answers are paid with -/

section Earned

variable {P : ServerFormat} {key : CacheKey} {hash : String} {s s' : Server} {label : Label} {n : ℕ}

/-- What retries have got, or can get, if any: an answer, an entry of the cache, or a response on
its way there. -/
structure Earned (P : ServerFormat) (key : CacheKey) (hash : String) (s : Server) (paid : Prop) :
    Prop where
  cached : ∀ entry, s.cache.get key = some entry → entry.bodyHash = hash → paid
  carried : ∀ i response, s.retries P key hash i = some (some response) → paid

/-- A step between retries that are kept apart gives them nothing for free. -/
theorem Earned.step {paid : Prop} (h : Earned P key hash s paid) (hapart : Apart P key hash s label)
    (hstep : Step P s label s') :
    Earned P key hash s' (paid ∨ label.executes P key hash = true) ∧
      ∀ response, label.Succeeds P key hash response → paid := by
  have hsame : ∀ {s₁ : Server}, s₁.cache = s.cache → s₁.retries P key hash = s.retries P key hash →
      Earned P key hash s₁ (paid ∨ label.executes P key hash = true) := by
    intro s₁ hcache hretries
    constructor
    · intro entry hentry hhash
      rw [hcache] at hentry
      exact .inl (h.cached entry hentry hhash)
    · intro i response hi
      rw [hretries] at hi
      exact .inl (h.carried i response hi)
  have hgone : ∀ {s₁ : Server} {i : ℕ}, s₁.cache = s.cache → s₁.flights = s.flights →
      Earned P key hash (s₁.clear i) (paid ∨ label.executes P key hash = true) := by
    intro s₁ i hcache hflights
    constructor
    · intro entry hentry hhash
      rw [Server.clear_cache, hcache] at hentry
      exact .inl (h.cached entry hentry hhash)
    · intro j response hj
      rw [retries_clear, retries_congr hflights] at hj
      exact .inl (h.carried j response (of_update_none hj).2)
  have hmoved : ∀ {s₁ : Server} {i : ℕ} {flight : Flight}, s₁.cache = s.cache →
      s₁.flights = s.flights →
      (∀ response, flight.asRetry P key hash = some (some response) → paid ∨
        label.executes P key hash = true) →
      Earned P key hash (s₁.setFlight i flight) (paid ∨ label.executes P key hash = true) := by
    intro s₁ i flight hcache hflights hcarried
    constructor
    · intro entry hentry hhash
      rw [Server.setFlight_cache, hcache] at hentry
      exact .inl (h.cached entry hentry hhash)
    · intro j response hj
      rw [retries_setFlight, retries_congr hflights] at hj
      by_cases hne : j = i
      · rw [hne, Function.update_self] at hj
        exact hcarried response hj
      · rw [Function.update_of_ne hne] at hj
        exact .inl (h.carried j response hj)
  cases hstep with
  | @arrive s₁ i q hnone hactor =>
    have hforActor : s₁.cache = s.cache ∧ s₁.flights = s.flights := by
      rcases Server.forActor_cases hactor with rfl | ⟨_, _, _, _, _, rfl⟩ <;> exact ⟨rfl, rfl⟩
    refine ⟨hmoved hforActor.1 hforActor.2 fun response hresponse => ?_,
      fun response hs => absurd hs (Kept.not_succeeds_of_none rfl response)⟩
    rw [asRetry_arrived] at hresponse
    cases hresponse
  | refuse i q _ _ =>
    exact ⟨hsame rfl rfl, fun response hs => absurd hs
      (Kept.not_succeeds rfl (fun _ => isOk_badRequest _) response)⟩
  | @replay i q response hi hlookup =>
    refine ⟨hgone rfl rfl, ?_⟩
    rintro response' ⟨q', hanswer, hretry, hok⟩
    obtain ⟨rfl, rfl⟩ := Prod.mk.inj (Option.some.inj hanswer)
    exact h.cached _ (Server.get_of_lookup_ok hretry.1 hlookup hok) hretry.2
  | @miss i q hi hlookup =>
    refine ⟨hmoved rfl rfl fun response hresponse => ?_,
      fun response hs => absurd hs (Kept.not_succeeds_of_none rfl response)⟩
    rw [Flight.asRetry] at hresponse
    split_ifs at hresponse
    cases Option.some.inj hresponse
  | @execute i q db db' response hi hdb hsection =>
    have hcache : (s.setDb q.shard db').cache = s.cache := s.setDb_cache q.shard db'
    have hflights : (s.setDb q.shard db').flights = s.flights := s.setDb_flights q.shard db'
    constructor
    · unfold Server.answered
      by_cases hkeyed : (q.cacheKey.isSome && isOk response) = true
      · rw [if_pos hkeyed]
        refine hmoved hcache hflights fun response' hresponse => .inr ?_
        by_cases hretry : q.IsRetry P key hash
        · rw [Label.executes, decide_eq_true hretry, Bool.true_and]
          exact (Bool.and_eq_true_iff.1 hkeyed).2
        · rw [asRetry_of_not hretry] at hresponse
          cases hresponse
      · rw [if_neg hkeyed]
        exact hgone hcache hflights
    · rintro response' ⟨q', hanswer, hretry, hok⟩
      rw [Label.answer] at hanswer
      split_ifs at hanswer with hkeyed
      obtain ⟨rfl, rfl⟩ := Prod.mk.inj (Option.some.inj hanswer)
      rw [hretry.1, hok] at hkeyed
      exact absurd rfl hkeyed
  | @fail i q db db' e hi hdb hsection =>
    exact ⟨hgone (s.setDb_cache q.shard db') (s.setDb_flights q.shard db'),
      fun response hs => absurd hs (Kept.not_succeeds rfl (fun _ => isOk_badRequest _) response)⟩
  | @record i q db db' response key' reply hi hkey hdb hrun =>
    refine ⟨hmoved (s.setDb_cache q.shard db') (s.setDb_flights q.shard db')
      fun response' hresponse => ?_,
      fun response hs => absurd hs (Kept.not_succeeds_of_none rfl response)⟩
    exact .inl (h.carried i response' ((retries_of_flight hi).trans hresponse))
  | @unrecord i q db db' response key' e hi hkey hdb hrun =>
    exact ⟨hgone (s.setDb_cache q.shard db') (s.setDb_flights q.shard db'),
      fun response hs => absurd hs (Kept.not_succeeds rfl (fun _ => isOk_badRequest _) response)⟩
  | @insert i q response key' hi hkey =>
    have hpaid : q.IsRetry P key hash → paid := fun hretry =>
      h.carried i response ((retries_of_flight hi).trans (asRetry_past hretry rfl))
    refine ⟨⟨fun entry hentry hhash => ?_, fun j response' hj => ?_⟩, ?_⟩
    · rw [Server.clear_cache] at hentry
      by_cases hsame' : key' = key
      · subst hsame'
        rw [show ({ s with cache := s.cache.insert key' ⟨q.bodyHash P, response⟩ } : Server).cache =
          s.cache.insert key' ⟨q.bodyHash P, response⟩ from rfl,
          IdempotencyCacheState.get_insert_self] at hentry
        obtain rfl := Option.some.inj hentry
        exact .inl (hpaid ⟨hkey, hhash⟩)
      · rw [show ({ s with cache := s.cache.insert key' ⟨q.bodyHash P, response⟩ } : Server).cache =
          s.cache.insert key' ⟨q.bodyHash P, response⟩ from rfl,
          IdempotencyCacheState.get_insert_of_ne _ (Ne.symm hsame')] at hentry
        exact .inl (h.cached entry hentry hhash)
    · rw [retries_clear] at hj
      exact .inl (h.carried j response' (of_update_none hj).2)
    · rintro response' ⟨q', hanswer, hretry, -⟩
      obtain ⟨rfl, -⟩ := Prod.mk.inj (Option.some.inj hanswer)
      exact hpaid hretry
  | drop hi _ =>
    exact ⟨hgone rfl rfl, fun response hs => absurd hs (Kept.not_succeeds_of_none rfl response)⟩
  | restart _ _ _ => exact hapart.elim

end Earned

/-! ### A call and the server -/

/-- A call, the server, and what is on its way between them. -/
structure Exchange where
  server : Server
  phase : ClientCall.Phase
  /-- The attempts whose requests are on their way to the server. -/
  sent : ℕ → Bool
  /-- The attempts at the server, by the numbers that their requests have there. -/
  own : ℕ → Option ℕ
  /-- The answers on their way back, by attempt. -/
  answers : ℕ → Option String

/-- What is seen of a step. -/
inductive ExchangeLabel where
  | sent (attempt : ℕ)
  | withheld (attempt : ℕ)
  | lost (attempt : ℕ)
  | arrived (attempt : ℕ) (label : Label)
  /-- A request of somebody else. -/
  | foreign (label : Label)
  /-- A step of the server past its door, for an attempt of the call or for somebody else. -/
  | served (attempt : Option ℕ) (label : Label)
  | received (attempt : ℕ) (response : String)
  | gaveUp (attempt : ℕ) (error : HttpApiError)

namespace ExchangeLabel

/-- The step of the server. -/
def server : ExchangeLabel → Option Label
  | .arrived _ label | .foreign label | .served _ label => some label
  | _ => none

/-- A step that sends the request of the call. -/
def sends : ExchangeLabel → Bool
  | .sent _ => true
  | _ => false

/-- A step that executes the operation of the call. -/
def executes : ExchangeLabel → Bool
  | .served (some _) (.executed _ _ response) => isOk response
  | _ => false

end ExchangeLabel

namespace Exchange

/-- A call that is about to be made. -/
def start (s : Server) : Exchange where
  server := s
  phase := .starting 0
  sent _ := false
  own _ := none
  answers _ := none

/-- The answers on their way back after a step of the server. -/
def noted (c : Exchange) (label : Label) : ℕ → Option String :=
  match label.flight.bind c.own, label.answer with
  | some attempt, some (_, response) => Function.update c.answers attempt (some response)
  | _, _ => c.answers

theorem noted_eq_some {c : Exchange} {label : Label} {attempt : ℕ} {response : String}
    (h : c.noted label attempt = some response) : c.answers attempt = some response ∨
      ∃ i q, label.flight = some i ∧ c.own i ≠ none ∧ label.answer = some (q, response) := by
  cases hown : label.flight.bind c.own with
  | none =>
    simp only [noted, hown] at h
    exact .inl h
  | some attempt' =>
    cases hanswer : label.answer with
    | none =>
      simp only [noted, hown, hanswer] at h
      exact .inl h
    | some answer =>
      obtain ⟨q, response'⟩ := answer
      simp only [noted, hown, hanswer] at h
      rcases eq_or_of_update_some h with ⟨-, rfl⟩ | ⟨-, hold⟩
      · obtain ⟨i, hi, hattempt⟩ := Option.bind_eq_some_iff.1 hown
        exact .inr ⟨i, q, hi, by rw [hattempt]; exact Option.some_ne_none _, rfl⟩
      · exact .inl hold

end Exchange

/-- The steps of a call and of the server.  An attempt is given up when its connection is lost, when
its time is over, and when a layer before the handler answers. -/
inductive ExchangeStep (X : ClientFormat) (P : ServerFormat) (call : ClientCall) (c : Exchange) :
    ExchangeLabel → Exchange → Prop
  | send (n : ℕ) : c.phase = .starting n → call.isSendable = true →
      ExchangeStep X P call c (.sent n)
        { c with phase := .waiting n, sent := Function.update c.sent n true }
  | withhold (n : ℕ) : c.phase = .starting n → call.isSendable = false →
      ExchangeStep X P call c (.withheld n)
        { c with
          phase := call.after n (.error (.request call.request.method call.path
            "idempotency key must be non-empty and must not contain CR or LF")) }
  | lose (n : ℕ) : c.sent n = true →
      ExchangeStep X P call c (.lost n) { c with sent := Function.update c.sent n false }
  | arrive (n i : ℕ) {s' : Server} : c.sent n = true →
      Step P c.server (.arrived i call.request) s' →
      ExchangeStep X P call c (.arrived n (.arrived i call.request))
        { c with
          server := s'
          sent := Function.update c.sent n false
          own := Function.update c.own i (some n) }
  | refuse (n i : ℕ) {response : String} {s' : Server} : c.sent n = true →
      Step P c.server (.refused i call.request response) s' →
      ExchangeStep X P call c (.arrived n (.refused i call.request response))
        { c with
          server := s'
          sent := Function.update c.sent n false
          answers := Function.update c.answers n (some response) }
  | foreignArrive (i : ℕ) {q : Request} {s' : Server} : Step P c.server (.arrived i q) s' →
      ExchangeStep X P call c (.foreign (.arrived i q))
        { c with server := s', own := Function.update c.own i none }
  | foreignRefuse (i : ℕ) {q : Request} {response : String} {s' : Server} :
      Step P c.server (.refused i q response) s' →
      ExchangeStep X P call c (.foreign (.refused i q response)) { c with server := s' }
  | serve {label : Label} {s' : Server} : label.isArrival = false → Step P c.server label s' →
      ExchangeStep X P call c (.served (label.flight.bind c.own) label)
        { c with server := s', answers := c.noted label }
  | receive (n : ℕ) {response : String} : c.phase = .waiting n → c.answers n = some response →
      ExchangeStep X P call c (.received n response)
        { c with phase := call.after n (call.outcome X response) }
  | giveUp (n : ℕ) (error : HttpApiError) : c.phase = .waiting n →
      ExchangeStep X P call c (.gaveUp n error) { c with phase := call.after n (.error error) }

namespace Exchange

variable {X : ClientFormat} {P : ServerFormat} {call : ClientCall}
  {c c' : Exchange} {label : ExchangeLabel} {trace : List ExchangeLabel}

/-- The requests of the call at the server are those that it sent. -/
def Tracked (call : ClientCall) (c : Exchange) : Prop :=
  ∀ i, c.own i ≠ none → ∀ flight, c.server.flights i = some flight → flight.request = call.request

theorem Tracked.step (h : Tracked call c) (hstep : ExchangeStep X P call c label c') :
    Tracked call c' := by
  have hkeeps : ∀ {l : Label} {s' : Server} {i : ℕ}, Step P c.server l s' → c.own i ≠ none →
      (∀ q, l ≠ .arrived i q) → ∀ flight, s'.flights i = some flight →
      flight.request = call.request := by
    intro l s' i hs hown harrived flight hflight
    rcases hs.flight_before hflight with ⟨flight', hbefore, hrequest, -⟩ | hlabel
    · rw [← hrequest]
      exact h i hown flight' hbefore
    · exact absurd hlabel (harrived _)
  cases hstep with
  | send _ _ _ | withhold _ _ _ | lose _ _ | receive _ _ _ | giveUp _ _ _ => exact h
  | refuse n i _ hs => exact fun j hown => hkeeps hs hown fun _ => nofun
  | foreignRefuse i hs => exact fun j hown => hkeeps hs hown fun _ => nofun
  | @serve l s' harrival hs =>
    refine fun j hown => hkeeps hs hown ?_
    rintro q rfl
    cases harrival
  | @arrive n i s' hsent hs =>
    intro j hown flight hflight
    by_cases hne : j = i
    · rcases hs.flight_before hflight with ⟨flight', hbefore, -, -⟩ | hlabel
      · rw [hne, hs.arrived_free] at hbefore
        cases hbefore
      · exact (Label.arrived.inj hlabel).2.symm
    · change Function.update c.own i (some n) j ≠ none at hown
      rw [Function.update_of_ne hne] at hown
      exact hkeeps hs hown (fun q heq => hne (Label.arrived.inj heq).1.symm) flight hflight
  | @foreignArrive i q s' hs =>
    intro j hown flight hflight
    obtain ⟨hne, hown⟩ := of_update_ne_self hown
    exact hkeeps hs hown (fun q heq => hne (Label.arrived.inj heq).1.symm) flight hflight

/-! #### Calls that only read -/

end Exchange

namespace Exchange

variable {X : ClientFormat} {P : ServerFormat} {call : ClientCall} {c c' : Exchange}
  {label : ExchangeLabel} {k : ℕ}

theorem executes_served {own : Option ℕ} {l : Label}
    (h : (ExchangeLabel.served own l).executes = true) :
    own ≠ none ∧ ∃ i q response, l = .executed i q response ∧ isOk response = true := by
  unfold ExchangeLabel.executes at h
  split at h
  · next hlabel =>
    obtain ⟨rfl, rfl⟩ := ExchangeLabel.served.inj hlabel
    exact ⟨Option.some_ne_none _, _, _, _, rfl, h⟩
  · cases h

/-- The request of the call that is answered. -/
theorem Tracked.request (h : Tracked call c) {l : Label} {s' : Server} (hs : Step P c.server l s')
    (harrival : l.isArrival = false) {i : ℕ} (hi : l.flight = some i)
    (hown : c.own i ≠ none) {q : Request} {response : String}
    (hanswer : l.answer = some (q, response)) : q = call.request := by
  obtain ⟨phase, hflight⟩ := hs.answer_at harrival hi hanswer
  exact h i hown _ hflight

/-! #### Calls that are made once -/

/-- What holds along the runs of a call that is made once, without a key, when it has been executed
`k` times. -/
structure Single (call : ClientCall) (k : ℕ) (c : Exchange) : Prop where
  tracked : Tracked call c
  once : k ≤ 1
  /-- It has not been executed before it is made, -/
  starting : ∀ n, c.phase = .starting n → n = 0 ∧ (∀ m, c.sent m = false) ∧
    (∀ i, c.own i = none) ∧ k = 0
  /-- nor while it is on its way, -/
  sent : ∀ n, c.sent n = true → n = 0 ∧ (∀ i, c.own i = none) ∧ k = 0
  /-- nor while the server has it. -/
  own : ∀ i, c.own i ≠ none → (∀ j, c.own j ≠ none → j = i) ∧ (c.server.flights i ≠ none → k = 0)
  answered : ∀ n response, c.answers n = some response → isOk response = true → k ≠ 0
  returned : ∀ value, c.phase = .returned (.ok value) → k ≠ 0

namespace Single

theorem start (s : Server) : Single call 0 (start s) where
  tracked i hown := absurd rfl hown
  once := Nat.zero_le _
  starting n h := ⟨(ClientCall.Phase.starting.inj h).symm, fun _ => rfl, fun _ => rfl, rfl⟩
  sent n h := by cases h
  own i hown := absurd rfl hown
  answered n response h := by cases h
  returned value h := by cases h

/-- An attempt is over, and was the last one. -/
theorem client (h : Single call k c) (hattempts : call.attempts = 1) (n : ℕ)
    {result : Except HttpApiError Value} (hresult : ∀ value, result = .ok value → k ≠ 0) :
      Single call k { c with phase := call.after n result } := by
  refine ⟨h.tracked, h.once, fun m hm => ?_, h.sent, h.own, h.answered, fun value hvalue => ?_⟩
  · obtain ⟨rfl, hlt⟩ := ClientCall.after_starting hm
    omega
  · exact hresult value (ClientCall.after_returned_ok hvalue)

/-- The step executes the call: it was at the server, and is done there. -/
theorem executed (h : Single call k c) (hkey : call.request.cacheKey = none) {i : ℕ} {q : Request}
    {response : String} {s' : Server} (hs : Step P c.server (.executed i q response) s')
    (hown : c.own i ≠ none) :
    k = 0 ∧ ∀ j, c.own j ≠ none → s'.flights j = none := by
  have hflight := hs.executed_at
  obtain rfl : q = call.request := h.tracked i hown _ hflight
  refine ⟨(h.own i hown).2 (by rw [hflight]; exact Option.some_ne_none _), fun j hj => ?_⟩
  rw [(h.own i hown).1 j hj]
  exact hs.executed_keyless hkey

theorem step (hattempts : call.attempts = 1) (hkey : call.request.cacheKey = none)
    (h : Single call k c) (hstep : ExchangeStep X P call c label c') :
      Single call (k + label.executes.toNat) c' := by
  have htracked := h.tracked.step hstep
  cases hstep with
  | send n hphase _ =>
    obtain ⟨rfl, hsent, hown, hzero⟩ := h.starting n hphase
    refine { h with
      tracked := htracked
      starting := nofun
      returned := nofun
      sent := fun m hm => ?_ }
    by_cases hne : m = 0
    · exact ⟨hne, hown, hzero⟩
    · change Function.update c.sent 0 true m = true at hm
      rw [Function.update_of_ne hne, hsent m] at hm
      cases hm
  | withhold n _ _ => exact h.client hattempts n nofun
  | @receive n response _ hanswer =>
    exact h.client hattempts n fun value hvalue => h.answered n response hanswer
      (ClientCall.outcome_eq_ok hvalue)
  | giveUp n error _ => exact h.client hattempts n nofun
  | lose n hsent =>
    refine { h with tracked := htracked, starting := fun m hm => ?_, sent := fun m hm => ?_ }
    · obtain ⟨-, hnone, -, -⟩ := h.starting m hm
      rw [hnone n] at hsent
      cases hsent
    · exact h.sent m (of_update_of_ne Bool.false_ne_true hm).2
  | @arrive n i s' hsent hs =>
    obtain ⟨rfl, hown, hzero⟩ := h.sent n hsent
    have honly : ∀ j, Function.update c.own i (some 0) j ≠ none → j = i := by
      intro j hj
      by_contra hne
      rw [Function.update_of_ne hne, hown j] at hj
      exact hj rfl
    refine { h with
      tracked := htracked
      starting := fun m hm => ?_
      sent := fun m hm => ?_
      own := fun j hj => ?_ }
    · obtain ⟨-, hnone, -, -⟩ := h.starting m hm
      rw [hnone 0] at hsent
      cases hsent
    · obtain ⟨hne, hm⟩ := of_update_of_ne Bool.false_ne_true hm
      exact absurd (h.sent m hm).1 hne
    · obtain rfl := honly j hj
      exact ⟨honly, fun _ => hzero⟩
  | @refuse n i response s' hsent hs =>
    obtain ⟨rfl, hown, hzero⟩ := h.sent n hsent
    refine { h with
      tracked := htracked
      starting := fun m hm => ?_
      sent := fun m hm => ?_
      own := fun j hj => absurd (hown j) hj
      answered := fun m response' hm hok => ?_ }
    · obtain ⟨-, hnone, -, -⟩ := h.starting m hm
      rw [hnone 0] at hsent
      cases hsent
    · obtain ⟨hne, hm⟩ := of_update_of_ne Bool.false_ne_true hm
      exact absurd (h.sent m hm).1 hne
    · rcases eq_or_of_update_some hm with ⟨-, rfl⟩ | ⟨-, hold⟩
      · obtain ⟨j, hlabel⟩ := hs.answer_keyless rfl hok hkey
        cases hlabel
      · exact h.answered m response' hold hok
  | @foreignArrive i q s' hs =>
    have hold : ∀ j, Function.update c.own i none j ≠ none → j ≠ i ∧ c.own j ≠ none :=
      fun _ => of_update_ne_self
    have hnone : (∀ j, c.own j = none) → ∀ j, Function.update c.own i none j = none := by
      intro hall j
      by_contra hj
      exact (hold j hj).2 (hall j)
    refine { h with
      tracked := htracked
      starting := fun m hm => ?_
      sent := fun m hm => ?_
      own := fun j hj => ?_ }
    · obtain ⟨hm, hsent, hown, hzero⟩ := h.starting m hm
      exact ⟨hm, hsent, hnone hown, hzero⟩
    · obtain ⟨hm, hown, hzero⟩ := h.sent m hm
      exact ⟨hm, hnone hown, hzero⟩
    · obtain ⟨hne, hj⟩ := hold j hj
      refine ⟨fun j' hj' => (h.own j hj).1 j' (hold j' hj').2, fun hflight => (h.own j hj).2 ?_⟩
      exact hs.flight_kept (fun _ heq => hne (Label.arrived.inj heq).1.symm) hflight
  | foreignRefuse i hs =>
    cases hs with
    | refuse _ _ _ _ => exact { h with tracked := htracked }
  | @serve l s' harrival hs =>
    by_cases hexec : (ExchangeLabel.served (l.flight.bind c.own) l).executes = true
    · obtain ⟨hattempt, i, q, response, rfl, hok⟩ := executes_served hexec
      obtain ⟨rfl, hgone⟩ := h.executed hkey hs hattempt
      rw [hexec]
      refine ⟨htracked, le_rfl, fun n hn => ?_, fun n hn => ?_,
        fun j hj => ⟨(h.own j hj).1, fun hflight => ?_⟩,
        fun _ _ _ _ => one_ne_zero, fun _ _ => one_ne_zero⟩
      · exact absurd ((h.starting n hn).2.2.1 i) hattempt
      · exact absurd ((h.sent n hn).2.1 i) hattempt
      · exact absurd (hgone j hj) hflight
    · rw [Bool.not_eq_true] at hexec
      rw [hexec]
      refine { h with
        tracked := htracked
        own := fun j hj => ⟨(h.own j hj).1, fun hflight => (h.own j hj).2 ?_⟩
        answered := fun n response hn hok => ?_ }
      · refine hs.flight_kept ?_ hflight
        rintro q rfl
        cases harrival
      · rcases noted_eq_some hn with hold | ⟨i, q, hi, hown, hanswer⟩
        · exact h.answered n response hold hok
        · obtain rfl := h.tracked.request hs harrival hi hown hanswer
          obtain ⟨j, rfl⟩ := hs.answer_keyless hanswer hok hkey
          obtain rfl := Option.some.inj hi
          obtain ⟨attempt, hattempt⟩ := Option.ne_none_iff_exists'.1 hown
          simp only [Label.flight, Option.bind_some, hattempt, ExchangeLabel.executes, hok] at hexec
          cases hexec

end Single

end Exchange

namespace Exchange

variable {X : ClientFormat} {P : ServerFormat} {call : ClientCall} {c c' : Exchange}
  {label : ExchangeLabel} {k : ℕ} {key : CacheKey}

/-! #### Calls with a key -/

/-- A step that does not disturb the attempts of a call with a key. -/
structure Undisturbed (P : ServerFormat) (call : ClientCall) (key : CacheKey) (c : Exchange)
    (label : ExchangeLabel) :
    Prop where
  /-- Nobody else uses the key for this body. -/
  own : ∀ i q, label = .foreign (.arrived i q) → ¬ q.IsRetry P key (call.request.bodyHash P)
  /-- An attempt misses the cache only while no other one is between its lookup and its entry. -/
  lookup : ∀ i q, label.server = some (.missed i q) → q.IsRetry P key (call.request.bodyHash P) →
    ∀ j, c.server.retries P key (call.request.bodyHash P) j = none
  /-- The receipt of an attempt is written, on the routes that record it after the response, -/
  recorded : ∀ i q response, label.server = some (.unrecordable i q response) →
    ¬ q.IsRetry P key (call.request.bodyHash P)
  /-- and an attempt that waits to record it is not dropped, for it has executed and is in no
  cache. -/
  undropped : ∀ i, label.server = some (.dropped i) →
    ∀ response, c.server.retries P key (call.request.bodyHash P) i ≠ some (some response)
  /-- The server is not restarted. -/
  running : label.server ≠ some .restarted

theorem Undisturbed.apart (h : Undisturbed P call key c label) {l : Label}
    (hl : label.server = some l) :
    Apart P key (call.request.bodyHash P) c.server l := by
  cases l with
  | missed i q => exact h.lookup i q hl
  | unrecordable i q response => exact h.recorded i q response hl
  | dropped i => exact h.undropped i hl
  | restarted => exact h.running hl
  | _ => trivial

/-- The key of the call has not been used for its body yet. -/
structure Fresh (P : ServerFormat) (call : ClientCall) (s : Server) : Prop where
  cache : ∀ key, call.request.cacheKey = some key → ∀ entry, s.cache.get key = some entry →
    entry.bodyHash ≠ call.request.bodyHash P
  flights : ∀ key, call.request.cacheKey = some key → ∀ i flight, s.flights i = some flight →
    ¬ flight.request.IsRetry P key (call.request.bodyHash P)

theorem Fresh.retries {s : Server} (h : Fresh P call s)
    (hkey : call.request.cacheKey = some key) (i : ℕ) :
    s.retries P key (call.request.bodyHash P) i = none := by
  cases hi : s.flights i with
  | none =>
    rw [Server.retries, Server.project, hi]
    rfl
  | some flight =>
    obtain ⟨q, phase⟩ := flight
    exact (retries_of_flight hi).trans (asRetry_of_not (h.flights key hkey i _ hi) phase)

/-- What holds along the runs of a call with a key, when it has been executed `k` times. -/
structure Keyed (P : ServerFormat) (call : ClientCall) (key : CacheKey) (k : ℕ) (c : Exchange) :
    Prop where
  tracked : Tracked call c
  kept : ∃ trace, Kept P key (call.request.bodyHash P) trace c.server ∧
    trace.countP (Label.executes P key (call.request.bodyHash P)) = k
  earned : Earned P key (call.request.bodyHash P) c.server (k ≠ 0)
  /-- The retries at the server are attempts of the call. -/
  alone : ∀ i flight, c.server.flights i = some flight →
    flight.request.IsRetry P key (call.request.bodyHash P) →
    c.own i ≠ none
  answered : ∀ n response, c.answers n = some response → isOk response = true → k ≠ 0
  returned : ∀ value, c.phase = .returned (.ok value) → k ≠ 0

namespace Keyed

theorem start {s : Server} (hkey : call.request.cacheKey = some key) (hfresh : Fresh P call s) :
    Keyed P call key 0 (start s) where
  tracked i hown := absurd rfl hown
  kept := ⟨[], Kept.start (hfresh.retries hkey), rfl⟩
  earned := by
    refine ⟨fun entry hentry hhash => absurd hhash (hfresh.cache key hkey entry hentry),
      fun i response hi => ?_⟩
    cases (hfresh.retries hkey i).symm.trans hi
  alone i flight hi hretry := absurd hretry (hfresh.flights key hkey i flight hi)
  answered n response h := by cases h
  returned value h := by cases h

/-- An attempt is over. -/
theorem client (h : Keyed P call key k c) (n : ℕ) {result : Except HttpApiError Value}
    (hresult : ∀ value, result = .ok value → k ≠ 0) :
      Keyed P call key k { c with phase := call.after n result } :=
  { h with returned := fun value hvalue => hresult value (ClientCall.after_returned_ok hvalue) }

/-- What a step of the server does to the retries. -/
theorem moved (h : Keyed P call key k c) {l : Label} {s' : Server}
    (hapart : Apart P key (call.request.bodyHash P) c.server l) (hs : Step P c.server l s') :
    (∃ trace, Kept P key (call.request.bodyHash P) trace s' ∧
      trace.countP (Label.executes P key (call.request.bodyHash P)) =
        k + (l.executes P key (call.request.bodyHash P)).toNat) ∧
    Earned P key (call.request.bodyHash P) s'
      (k + (l.executes P key (call.request.bodyHash P)).toNat ≠ 0) ∧
    ∀ response, l.Succeeds P key (call.request.bodyHash P) response → k ≠ 0 := by
  obtain ⟨trace, hkept, hcount⟩ := h.kept
  obtain ⟨hearned, hsucceeds⟩ := h.earned.step hapart hs
  have hpaid : k ≠ 0 ∨ l.executes P key (call.request.bodyHash P) = true →
      k + (l.executes P key (call.request.bodyHash P)).toNat ≠ 0 := by
    rintro (hk | hexec)
    · omega
    · rw [hexec]
      exact Nat.succ_ne_zero k
  refine ⟨⟨_, hkept.step hapart hs, ?_⟩,
    ⟨fun entry hentry hhash => hpaid (hearned.cached entry hentry hhash),
    fun i response hi => hpaid (hearned.carried i response hi)⟩, hsucceeds⟩
  rw [List.countP_append, hcount]
  cases hexec : l.executes P key (call.request.bodyHash P) <;> simp [hexec]

/-- The executions of the call are those of the retries. -/
theorem executes_eq (h : Keyed P call key k c) (hkey : call.request.cacheKey = some key)
    {l : Label} {s' : Server} (hs : Step P c.server l s') :
      (ExchangeLabel.served (l.flight.bind c.own) l).executes =
      l.executes P key (call.request.bodyHash P) := by
  cases l with
  | executed i q response =>
    have hflight := hs.executed_at
    cases hown : c.own i with
    | none =>
      have hnot : ¬ q.IsRetry P key (call.request.bodyHash P) :=
        fun hretry => h.alone i _ hflight hretry hown
      simp [Label.flight, hown, ExchangeLabel.executes, Label.executes, hnot]
    | some attempt =>
      obtain rfl : q = call.request :=
        h.tracked i (by rw [hown]; exact Option.some_ne_none _) _ hflight
      have hretry : call.request.IsRetry P key (call.request.bodyHash P) := ⟨hkey, rfl⟩
      simp [Label.flight, hown, ExchangeLabel.executes, Label.executes, hretry]
  | _ => simp [ExchangeLabel.executes, Label.executes]

/-- The retries that a step of the server leaves were there before, or have just come in. -/
theorem alone_step (h : Keyed P call key k c) {l : Label} {s' : Server}
    (hs : Step P c.server l s') {j : ℕ} {flight : Flight} (hflight : s'.flights j = some flight)
    (hretry : flight.request.IsRetry P key (call.request.bodyHash P)) :
    c.own j ≠ none ∨ l = .arrived j flight.request := by
  rcases hs.flight_before hflight with ⟨flight', hbefore, hrequest, -⟩ | hlabel
  · exact .inl (h.alone j flight' hbefore (hrequest ▸ hretry))
  · exact .inr hlabel

theorem step (hkey : call.request.cacheKey = some key) (h : Keyed P call key k c)
    (hundisturbed : Undisturbed P call key c label) (hstep : ExchangeStep X P call c label c') :
    Keyed P call key (k + label.executes.toNat) c' := by
  have hapart : ∀ l, label.server = some l → Apart P key (call.request.bodyHash P) c.server l :=
    fun _ hl => hundisturbed.apart hl
  have hforeign := hundisturbed.own
  have htracked := h.tracked.step hstep
  cases hstep with
  | send n _ _ => exact { h with returned := nofun }
  | withhold n _ _ => exact h.client n nofun
  | lose n _ => exact { h with }
  | @receive n response _ hanswer =>
    exact h.client n fun value hvalue => h.answered n response hanswer
      (ClientCall.outcome_eq_ok hvalue)
  | giveUp n error _ => exact h.client n nofun
  | @arrive n i s' hsent hs =>
    obtain ⟨hkept, hearned, -⟩ := h.moved (hapart _ rfl) hs
    refine { h with
      tracked := htracked
      kept := hkept
      earned := hearned
      alone := fun j flight hflight hretry => ?_ }
    change Function.update c.own i (some n) j ≠ none
    by_cases hne : j = i
    · rw [hne, Function.update_self]
      exact Option.some_ne_none n
    · rw [Function.update_of_ne hne]
      exact (h.alone_step hs hflight hretry).resolve_right fun heq => hne
        (Label.arrived.inj heq).1.symm
  | @refuse n i response s' hsent hs =>
    obtain ⟨hkept, hearned, hsucceeds⟩ := h.moved (hapart _ rfl) hs
    refine { h with
      tracked := htracked, kept := hkept, earned := hearned, alone :=
        fun j flight hflight hretry => ?_,
      answered := fun m response' hm hok => ?_ }
    · exact (h.alone_step hs hflight hretry).resolve_right nofun
    · rcases eq_or_of_update_some hm with ⟨-, rfl⟩ | ⟨-, hold⟩
      · exact hsucceeds response' ⟨call.request, rfl, ⟨hkey, rfl⟩, hok⟩
      · exact h.answered m response' hold hok
  | @foreignArrive i q s' hs =>
    obtain ⟨hkept, hearned, -⟩ := h.moved (hapart _ rfl) hs
    refine { h with
      tracked := htracked
      kept := hkept
      earned := hearned
      alone := fun j flight hflight hretry => ?_ }
    change Function.update c.own i none j ≠ none
    have hne : j ≠ i := by
      rintro rfl
      rcases hs.flight_before hflight with ⟨flight', hbefore, -, -⟩ | hlabel
      · rw [hs.arrived_free] at hbefore
        cases hbefore
      · obtain ⟨-, rfl⟩ := Label.arrived.inj hlabel
        exact hforeign j _ rfl hretry
    rw [Function.update_of_ne hne]
    exact (h.alone_step hs hflight hretry).resolve_right fun heq => hne
      (Label.arrived.inj heq).1.symm
  | foreignRefuse i hs =>
    obtain ⟨hkept, hearned, -⟩ := h.moved (hapart _ rfl) hs
    exact { h with
      tracked := htracked
      kept := hkept
      earned := hearned
      alone := fun j flight hflight hretry => (h.alone_step hs hflight hretry).resolve_right nofun }
  | @serve l s' harrival hs =>
    obtain ⟨hkept, hearned, hsucceeds⟩ := h.moved (hapart _ rfl) hs
    rw [h.executes_eq hkey hs]
    refine ⟨htracked, hkept, hearned, fun j flight hflight hretry => ?_,
      fun n response hn hok => ?_,
      fun value hvalue => Nat.ne_of_gt
        (Nat.add_pos_left (Nat.pos_of_ne_zero (h.returned value hvalue)) _)⟩
    · refine (h.alone_step hs hflight hretry).resolve_right ?_
      rintro rfl
      cases harrival
    · refine Nat.ne_of_gt (Nat.add_pos_left (Nat.pos_of_ne_zero ?_) _)
      rcases noted_eq_some hn with hold | ⟨i, q, hi, hown, hanswer⟩
      · exact h.answered n response hold hok
      · obtain rfl := h.tracked.request hs harrival hi hown hanswer
        exact hsucceeds response ⟨call.request, hanswer, ⟨hkey, rfl⟩, hok⟩

end Keyed

/-! #### Runs -/

variable {trace : List ExchangeLabel}

/-- What is kept by every step, when some of them are counted, is kept by every run. -/
theorem counted {counts : ExchangeLabel → Bool} {allowed : Exchange → ExchangeLabel → Prop}
    {I : ℕ → Exchange → Prop} {c₀ : Exchange} (hstart : I 0 c₀)
    (hstep : ∀ {k c label c'}, allowed c label → ExchangeStep X P call c label c' → I k c →
      I (k + (counts label).toNat) c')
    (h : Runs (ExchangeStep X P call) allowed c₀ trace c) : I (trace.countP counts) c := by
  refine h.invariant (I := fun trace c => I (trace.countP counts) c) hstart ?_
  intro trace c label c' hallowed hs hc
  rw [List.countP_append]
  have hone : [label].countP counts = (counts label).toNat := by
    cases hcounts : counts label <;> simp [hcounts]
  rw [hone]
  exact hstep hallowed hs hc

/-- The attempts that are left when a call has been sent `k` times. -/
def Within (call : ClientCall) (k : ℕ) (c : Exchange) : Prop :=
  match c.phase with
  | .starting n => k ≤ n ∧ n < call.attempts
  | .waiting n => k ≤ n + 1 ∧ n < call.attempts
  | .returned _ => k ≤ call.attempts

/-- The loop goes on to the next attempt, or ends. -/
theorem Within.after {n : ℕ} (h : k ≤ n + 1 ∧ n < call.attempts)
    (result : Except HttpApiError Value) :
    Within call k { c with phase := call.after n result } := by
  unfold Within
  cases hafter : call.after n result with
  | starting m =>
    obtain ⟨rfl, hlt⟩ := ClientCall.after_starting hafter
    exact ⟨h.1, hlt⟩
  | waiting m =>
    unfold ClientCall.after at hafter
    split at hafter
    · cases hafter
    · split_ifs at hafter
  | returned _ => exact Nat.le_trans h.1 h.2

theorem Within.step (h : Within call k c) (hstep : ExchangeStep X P call c label c') :
    Within call (k + label.sends.toNat) c' := by
  unfold Within at h
  cases hstep with
  | send n hphase _ =>
    rw [hphase] at h
    exact ⟨Nat.succ_le_succ h.1, h.2⟩
  | withhold n hphase _ =>
    rw [hphase] at h
    exact Within.after ⟨Nat.le_succ_of_le h.1, h.2⟩ _
  | receive n hphase _ =>
    rw [hphase] at h
    exact Within.after h _
  | giveUp n error hphase =>
    rw [hphase] at h
    exact Within.after h _
  | lose _ _ | arrive _ _ _ _ | refuse _ _ _ _ | foreignArrive _ _ | foreignRefuse _ _
  | serve _ _ => exact h

end Exchange

namespace Exchange

variable {P : ServerFormat} {call : ClientCall} {c : Exchange}
  {label : ExchangeLabel} {key : CacheKey}

end Exchange

/-- The status of a response, and the epoch in its body. -/
def ClientFormat.reference : ClientFormat where
  fromSlice body :=
    .ok (.object [("epoch", .number (.posInt (UInt64.ofNat
      (Nat.ofDigitChars 10 (body.toList.filter Char.isDigit) 0))))])
  status response := ((Text.splitWhitespace response)[1]?.bind parseUsize).getD 500

end TraceDB
