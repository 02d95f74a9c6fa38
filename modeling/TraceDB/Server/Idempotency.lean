import TraceDB.Server.Reference

/-!
# Retries of a request

Requests with one cache key and one body are retries of one another.  The cache answers all but the
first, provided that none of them looks the cache up while another one is between its own lookup and
its insertion.

* `Apart` : the steps that keep the retries of a request apart.
* `Kept` : what the cache, the requests on their way and the steps so far have to do with each
  other.
* `at_most_once` : along the runs of such steps one operation is executed, and all answers agree.
* `two_lookups_execute_twice` : two retries that both look the cache up first are both executed.
-/

namespace TraceDB

variable (P : ServerFormat) (key : CacheKey) (hash : String)

/-- The requests with a cache key and a body hash. -/
def Request.IsRetry (q : Request) : Prop := q.cacheKey = some key ∧ q.bodyHash P = hash

instance (q : Request) : Decidable (q.IsRetry P key hash) := inferInstanceAs (Decidable (_ ∧ _))

/-- The response that a request carries to the cache. -/
def Phase.response : Phase → Option String
  | .unrecorded response | .ready response => some response
  | _ => none

/-- A retry past its lookup, by the response that it carries, if it has one already. -/
def Flight.asRetry (flight : Flight) : Option (Option String) :=
  if flight.request.IsRetry P key hash ∧ flight.phase.isPast = true then some flight.phase.response
  else none

/-- The retries past their lookup. -/
def Server.retries (s : Server) : ℕ → Option (Option String) :=
  s.project (Flight.asRetry P key hash)

/-- A step that executes the operation of a retry. -/
def Label.executes : Label → Bool
  | .executed _ q response => q.IsRetry P key hash && isOk response
  | _ => false

/-- A step that gives a retry a good answer. -/
def Label.Succeeds (label : Label) (response : String) : Prop :=
  ∃ q, label.answer = some (q, response) ∧ q.IsRetry P key hash ∧ isOk response = true

/-- **At most once**: one operation is executed for all retries of a request, and all good answers
are the same. -/
def AtMostOnce (trace : List Label) : Prop :=
  trace.countP (Label.executes P key hash) ≤ 1 ∧
    ∀ label ∈ trace, ∀ label' ∈ trace, ∀ response response',
      label.Succeeds P key hash response → label'.Succeeds P key hash response' →
        response = response'

/-- The steps that keep the retries apart: none looks the cache up in vain while another one is past
its lookup, none is given up between its operation and its receipt, and the server is not
restarted. -/
def Apart (s : Server) : Label → Prop
  | .missed _ q => q.IsRetry P key hash → ∀ j, s.retries P key hash j = none
  | .unrecordable _ q _ => ¬ q.IsRetry P key hash
  | .dropped i => ∀ response, s.retries P key hash i ≠ some (some response)
  | .restarted => False
  | _ => True

/-! ### The invariant -/

/-- What holds along runs that keep the retries apart. -/
structure Kept (trace : List Label) (s : Server) : Prop where
  once : trace.countP (Label.executes P key hash) ≤ 1
  /-- Only one retry is past its lookup. -/
  alone : ∀ i j, s.retries P key hash i ≠ none → s.retries P key hash j ≠ none → i = j
  /-- While it is before its operation, nothing has been executed or answered. -/
  fresh : ∀ i, s.retries P key hash i = some none →
    trace.countP (Label.executes P key hash) = 0 ∧
      (∀ label ∈ trace, ∀ response, ¬ label.Succeeds P key hash response) ∧
      ∀ entry, s.cache.get key = some entry → entry.bodyHash ≠ hash
  /-- What has been executed is in the cache, or on its way there. -/
  held : trace.countP (Label.executes P key hash) ≠ 0 → s.cache.get key ≠ none ∨
    ∃ i response, s.retries P key hash i = some (some response)
  /-- What has been answered is in the cache. -/
  known : ∀ label ∈ trace, ∀ response, label.Succeeds P key hash response → s.cache.get key ≠ none
  /-- There is one response. -/
  agree : ∃ response,
    (∀ label ∈ trace, ∀ r, label.Succeeds P key hash r → r = response) ∧
      (∀ entry, s.cache.get key = some entry → entry.bodyHash = hash → entry.response = response) ∧
      ∀ i r, s.retries P key hash i = some (some r) → r = response

variable {P key hash}

/-! ### Retries on their way -/

section Retries

variable {s s' : Server} {i : ℕ} {flight : Flight}

theorem retries_congr (h : s'.flights = s.flights) :
    s'.retries P key hash = s.retries P key hash :=
  Server.project_congr _ h

theorem retries_of_flight (h : s.flights i = some flight) :
    s.retries P key hash i = flight.asRetry P key hash :=
  Server.project_of_flight _ h

theorem retries_setFlight (s : Server) (i : ℕ) (flight : Flight) :
    (s.setFlight i flight).retries P key hash =
      Function.update (s.retries P key hash) i (flight.asRetry P key hash) :=
  Server.project_setFlight _ s i flight

theorem retries_clear (s : Server) (i : ℕ) :
    (s.clear i).retries P key hash = Function.update (s.retries P key hash) i none :=
  Server.project_clear _ s i

theorem retries_setFlight_self (h : flight.asRetry P key hash = s.retries P key hash i) :
    (s.setFlight i flight).retries P key hash = s.retries P key hash :=
  Server.project_setFlight_self _ h

theorem retries_clear_self (h : s.retries P key hash i = none) :
    (s.clear i).retries P key hash = s.retries P key hash :=
  Server.project_clear_self _ h

theorem asRetry_of_not {q : Request} (h : ¬ q.IsRetry P key hash) (phase : Phase) :
    Flight.asRetry P key hash ⟨q, phase⟩ = none := if_neg fun hr => h hr.1

theorem asRetry_arrived (q : Request) : Flight.asRetry P key hash ⟨q, .arrived⟩ = none :=
  if_neg fun hr => by cases hr.2

theorem asRetry_past {q : Request} (h : q.IsRetry P key hash) {phase : Phase}
    (hpast : phase.isPast = true) : Flight.asRetry P key hash ⟨q, phase⟩ = some phase.response :=
  if_pos ⟨h, hpast⟩

end Retries

theorem forall_mem_snoc {α : Type} {p : α → Prop} {xs : List α} {x : α} (h : ∀ a ∈ xs, p a)
    (hx : p x) : ∀ a ∈ xs ++ [x], p a := by
  intro a ha
  rcases List.mem_append.1 ha with hold | hnew
  · exact h a hold
  · obtain rfl := List.mem_singleton.1 hnew
    exact hx

/-- A step that executes no retry is not counted. -/
theorem countP_snoc (trace : List Label) {label : Label} (h : label.executes P key hash = false) :
    (trace ++ [label]).countP (Label.executes P key hash) =
      trace.countP (Label.executes P key hash) := by
  simp [h]

/-! ### Steps -/

namespace Kept

variable {trace : List Label} {s s' : Server} {label : Label}

theorem start (hnone : ∀ i, s.retries P key hash i = none) : Kept P key hash [] s := by
  refine ⟨Nat.zero_le _, ?_, ?_, fun hne => absurd rfl hne, ?_, ?_⟩
  · exact fun i j hi => absurd (hnone i) hi
  · intro i hi
    rw [hnone] at hi
    cases hi
  · exact fun label hmem => absurd hmem List.not_mem_nil
  · refine ⟨((s.cache.get key).map (·.response)).getD "", ?_, ?_, ?_⟩
    · exact fun label hmem => absurd hmem List.not_mem_nil
    · intro entry hentry _
      rw [hentry]
      rfl
    · intro i r hi
      rw [hnone] at hi
      cases hi

/-- A step that neither executes nor answers a retry, keeps the entry of the key, lets no retry past
the lookup, and keeps the responses that retries carry. -/
theorem frame (h : Kept P key hash trace s) (hexec : label.executes P key hash = false)
    (hsucc : ∀ response, ¬ label.Succeeds P key hash response)
    (hcache : s'.cache.get key = s.cache.get key)
    (hpast : ∀ i c, s'.retries P key hash i = some c → s.retries P key hash i = some c)
    (hcarried : ∀ i r, s.retries P key hash i = some (some r) →
      s'.retries P key hash i = some (some r)) :
    Kept P key hash (trace ++ [label]) s' := by
  have hcount := countP_snoc trace hexec
  have hpast' : ∀ i, s'.retries P key hash i ≠ none → s.retries P key hash i ≠ none := by
    intro i hi
    obtain ⟨c, hc⟩ := Option.ne_none_iff_exists'.1 hi
    rw [hpast i c hc]
    exact Option.some_ne_none c
  refine ⟨hcount ▸ h.once, ?_, ?_, ?_, ?_, ?_⟩
  · exact fun i j hi hj => h.alone i j (hpast' i hi) (hpast' j hj)
  · intro i hi
    obtain ⟨hnone, hsilent, hother⟩ := h.fresh i (hpast i _ hi)
    rw [hcount, hcache]
    exact ⟨hnone, forall_mem_snoc hsilent hsucc, hother⟩
  · rw [hcount, hcache]
    intro hne
    rcases h.held hne with hin | ⟨i, r, hi⟩
    · exact .inl hin
    · exact .inr ⟨i, r, hcarried i r hi⟩
  · rw [hcache]
    exact forall_mem_snoc h.known fun response hs => absurd hs (hsucc response)
  · obtain ⟨response, hanswers, hentries, hflights⟩ := h.agree
    refine ⟨response, forall_mem_snoc hanswers fun r hs => absurd hs (hsucc r), ?_, ?_⟩
    · rw [hcache]
      exact hentries
    · exact fun i r hi => hflights i r (hpast i _ hi)

/-- It is about the entry of the key and the retries only. -/
theorem congr (h : Kept P key hash trace s) (hcache : s'.cache.get key = s.cache.get key)
    (hretries : s'.retries P key hash = s.retries P key hash) : Kept P key hash trace s' := by
  obtain ⟨honce, halone, hfresh, hheld, hknown, hagree⟩ := h
  rw [← hcache] at hheld
  rw [← hretries] at halone hfresh hheld hagree
  rw [← hcache] at hfresh hknown hagree
  exact ⟨honce, halone, hfresh, hheld, hknown, hagree⟩

/-- The retries are all as before. -/
theorem same (h : Kept P key hash trace s) (hexec : label.executes P key hash = false)
    (hsucc : ∀ response, ¬ label.Succeeds P key hash response)
    (hcache : s'.cache.get key = s.cache.get key)
    (hretries : s'.retries P key hash = s.retries P key hash) :
    Kept P key hash (trace ++ [label]) s' :=
  h.frame hexec hsucc hcache (fun _ _ hi => hretries ▸ hi) (fun _ _ hi => hretries ▸ hi)

/-- A retry that carries no response is gone. -/
theorem gone (h : Kept P key hash trace s) (hexec : label.executes P key hash = false)
    (hsucc : ∀ response, ¬ label.Succeeds P key hash response) {i : ℕ}
    (hcache : s'.cache.get key = s.cache.get key)
    (hretries : s'.retries P key hash = Function.update (s.retries P key hash) i none)
    (hi : ∀ r, s.retries P key hash i ≠ some (some r)) :
    Kept P key hash (trace ++ [label]) s' := by
  refine h.frame hexec hsucc hcache ?_ ?_
  · intro j c hj
    rw [hretries] at hj
    exact (of_update_none hj).2
  · intro j r hj
    have hne : j ≠ i := by
      rintro rfl
      exact hi r hj
    rw [hretries, Function.update_of_ne hne]
    exact hj

/-- A retry is answered from the cache. -/
theorem replayed (h : Kept P key hash trace s) {i : ℕ} {q : Request} {response : String}
    (hresponse : s.cache.get key = some ⟨hash, response⟩) :
    Kept P key hash (trace ++ [.replayed i q response]) s := by
  have hexec : (Label.replayed i q response).executes P key hash = false := rfl
  have hcount := countP_snoc trace hexec
  have hin : s.cache.get key ≠ none := by
    rw [hresponse]
    exact Option.some_ne_none _
  refine ⟨hcount ▸ h.once, h.alone, ?_, fun _ => .inl hin, ?_, ?_⟩
  · intro j hj
    exact absurd rfl ((h.fresh j hj).2.2 _ hresponse)
  · exact forall_mem_snoc h.known fun _ _ => hin
  · obtain ⟨r, hanswers, hentries, hflights⟩ := h.agree
    refine ⟨r, forall_mem_snoc hanswers ?_, hentries, hflights⟩
    rintro r' ⟨q', hq', -, -⟩
    obtain ⟨-, rfl⟩ := Prod.mk.inj (Option.some.inj hq')
    exact hentries _ hresponse rfl

/-- A retry goes past the lookup, alone. -/
theorem missed (h : Kept P key hash trace s) {i : ℕ} {q : Request}
    (hnone : ∀ j, s.retries P key hash j = none) (hcache : s.cache.get key = none)
    (hcache' : s'.cache.get key = s.cache.get key)
    (hretries : s'.retries P key hash = Function.update (s.retries P key hash) i (some none)) :
    Kept P key hash (trace ++ [.missed i q]) s' := by
  have hexec : (Label.missed i q).executes P key hash = false := rfl
  have hcount := countP_snoc trace hexec
  have hsucc : ∀ response, ¬ (Label.missed i q).Succeeds P key hash response := by
    rintro response ⟨q', hq', -⟩
    cases hq'
  have hzero : trace.countP (Label.executes P key hash) = 0 := by
    by_contra hne
    rcases h.held hne with hin | ⟨j, r, hj⟩
    · exact hin hcache
    · rw [hnone] at hj
      cases hj
  have honly : ∀ j c, s'.retries P key hash j = some c → j = i ∧ c = none := by
    intro j c hj
    rw [hretries] at hj
    rcases eq_or_of_update_some hj with hnew | ⟨-, hold⟩
    · exact hnew
    · rw [hnone] at hold
      cases hold
  have hsilent : ∀ label ∈ trace ++ [.missed i q], ∀ response,
      ¬ label.Succeeds P key hash response := by
    refine forall_mem_snoc ?_ hsucc
    exact fun label hmem response hs => h.known label hmem response hs hcache
  refine ⟨hcount ▸ h.once, ?_, ?_, ?_, ?_, ?_⟩
  · intro j j' hj hj'
    obtain ⟨c, hc⟩ := Option.ne_none_iff_exists'.1 hj
    obtain ⟨c', hc'⟩ := Option.ne_none_iff_exists'.1 hj'
    exact (honly j c hc).1.trans (honly j' c' hc').1.symm
  · intro j _
    refine ⟨hcount.trans hzero, hsilent, fun entry hentry => ?_⟩
    rw [hcache', hcache] at hentry
    cases hentry
  · exact fun hne => absurd (hcount.trans hzero) hne
  · exact fun label hmem response hs => absurd hs (hsilent label hmem response)
  · refine ⟨"", fun label hmem r hs => absurd hs (hsilent label hmem r), ?_, ?_⟩
    · intro entry hentry
      rw [hcache', hcache] at hentry
      cases hentry
    · intro j r hj
      cases (honly j _ hj).2

/-- The operation of the retry is executed. -/
theorem executed (h : Kept P key hash trace s) {i : ℕ} {q : Request} {response : String}
    (hretry : q.IsRetry P key hash) (hok : isOk response = true)
    (hi : s.retries P key hash i = some none) (hcache : s'.cache.get key = s.cache.get key)
    (hretries : s'.retries P key hash =
      Function.update (s.retries P key hash) i (some (some response))) :
    Kept P key hash (trace ++ [.executed i q response]) s' := by
  obtain ⟨hzero, hsilent, hother⟩ := h.fresh i hi
  have hexec : (Label.executed i q response).executes P key hash = true := by
    simp [Label.executes, hretry, hok]
  have hsucc : ∀ r, ¬ (Label.executed i q response).Succeeds P key hash r := by
    rintro r ⟨q', hq', -⟩
    simp [Label.answer, hretry.1, hok] at hq'
  have hcount : (trace ++ [Label.executed i q response]).countP
      (Label.executes P key hash) = 1 := by
    simp [hexec, hzero]
  have honly : ∀ j c, s'.retries P key hash j = some c → j = i ∧ c = some response := by
    intro j c hj
    rw [hretries] at hj
    rcases eq_or_of_update_some hj with hnew | ⟨hne, hold⟩
    · exact hnew
    · have hj' : s.retries P key hash j ≠ none := by
        rw [hold]
        exact Option.some_ne_none _
      have hi' : s.retries P key hash i ≠ none := by
        rw [hi]
        exact Option.some_ne_none _
      exact absurd (h.alone j i hj' hi') hne
  have hsilent' := forall_mem_snoc hsilent hsucc
  refine ⟨hcount.le, ?_, ?_, ?_, ?_, ?_⟩
  · intro j j' hj hj'
    obtain ⟨c, hc⟩ := Option.ne_none_iff_exists'.1 hj
    obtain ⟨c', hc'⟩ := Option.ne_none_iff_exists'.1 hj'
    exact (honly j c hc).1.trans (honly j' c' hc').1.symm
  · intro j hj
    cases (honly j none hj).2
  · refine fun _ => .inr ⟨i, response, ?_⟩
    rw [hretries, Function.update_self]
  · exact fun label hmem r hs => absurd hs (hsilent' label hmem r)
  · refine ⟨response, fun label hmem r hs => absurd hs (hsilent' label hmem r), ?_, ?_⟩
    · intro entry hentry hhash
      rw [hcache] at hentry
      exact absurd hhash (hother entry hentry)
    · intro j r hj
      exact Option.some.inj (honly j _ hj).2

/-- The answer of the retry is put into the cache, and given. -/
theorem inserted (h : Kept P key hash trace s) {i : ℕ} {q : Request} {response : String}
    (hi : s.retries P key hash i = some (some response))
    (hcache : s'.cache.get key = some ⟨hash, response⟩)
    (hretries : s'.retries P key hash = Function.update (s.retries P key hash) i none) :
    Kept P key hash (trace ++ [.inserted i q response]) s' := by
  have hexec : (Label.inserted i q response).executes P key hash = false := rfl
  have hcount := countP_snoc trace hexec
  have hin : s'.cache.get key ≠ none := by
    rw [hcache]
    exact Option.some_ne_none _
  have hnone : ∀ j, s'.retries P key hash j = none := by
    intro j
    rw [hretries]
    by_cases hj : j = i
    · rw [hj, Function.update_self]
    · rw [Function.update_of_ne hj]
      by_contra hne
      have hi' : s.retries P key hash i ≠ none := by
        rw [hi]
        exact Option.some_ne_none _
      exact hj (h.alone j i hne hi')
  refine ⟨hcount ▸ h.once, fun j j' hj => absurd (hnone j) hj, ?_, fun _ => .inl hin, ?_, ?_⟩
  · intro j hj
    rw [hnone] at hj
    cases hj
  · exact forall_mem_snoc (fun _ _ _ _ => hin) fun _ _ => hin
  · obtain ⟨r, hanswers, -, hflights⟩ := h.agree
    obtain rfl := hflights i response hi
    refine ⟨response, forall_mem_snoc hanswers ?_, ?_, ?_⟩
    · rintro r ⟨q', hq', -, -⟩
      obtain ⟨-, rfl⟩ := Prod.mk.inj (Option.some.inj hq')
      rfl
    · intro entry hentry _
      rw [hcache] at hentry
      obtain rfl := Option.some.inj hentry
      rfl
    · intro j r hj
      rw [hnone] at hj
      cases hj

/-- The entry of the key is replaced by one with another body. -/
theorem overwritten (h : Kept P key hash trace s) (hexec : label.executes P key hash = false)
    (hsucc : ∀ response, ¬ label.Succeeds P key hash response) {entry : IdempotencyEntry}
    (hcache : s'.cache.get key = some entry) (hother : entry.bodyHash ≠ hash)
    (hretries : s'.retries P key hash = s.retries P key hash) :
    Kept P key hash (trace ++ [label]) s' := by
  have hcount := countP_snoc trace hexec
  have hin : s'.cache.get key ≠ none := by
    rw [hcache]
    exact Option.some_ne_none _
  have hentry : ∀ e, s'.cache.get key = some e → e.bodyHash ≠ hash := by
    intro e he
    rw [hcache] at he
    obtain rfl := Option.some.inj he
    exact hother
  refine ⟨hcount ▸ h.once, hretries ▸ h.alone, ?_, fun _ => .inl hin, fun _ _ _ _ => hin, ?_⟩
  · intro j hj
    rw [hretries] at hj
    obtain ⟨hzero, hsilent, -⟩ := h.fresh j hj
    exact ⟨hcount.trans hzero, forall_mem_snoc hsilent hsucc, hentry⟩
  · obtain ⟨r, hanswers, -, hflights⟩ := h.agree
    refine ⟨r, forall_mem_snoc hanswers fun r' hs => absurd hs (hsucc r'), ?_, hretries ▸ hflights⟩
    exact fun e he hhash => absurd hhash (hentry e he)

theorem answered (h : Kept P key hash trace s) {i : ℕ} {q : Request} {response : String}
    (hi : s.flights i = some ⟨q, .missed⟩) {s₁ : Server} (hflights : s₁.flights = s.flights)
    (hcache : s₁.cache = s.cache) :
    Kept P key hash (trace ++ [.executed i q response]) (s₁.answered i q response) := by
  have hsame : s₁.retries P key hash = s.retries P key hash := retries_congr hflights
  have hat : s.retries P key hash i = Flight.asRetry P key hash ⟨q, .missed⟩ := retries_of_flight hi
  by_cases hretry : q.IsRetry P key hash
  · rw [asRetry_past hretry rfl] at hat
    by_cases hok : isOk response = true
    · -- The response is on its way to the cache, with or without the detour of a receipt.
      have hkeyed : (q.cacheKey.isSome && isOk response) = true := by
        rw [hretry.1, hok]
        rfl
      have hcarries : ∀ phase, phase = (if q.route.recordsReceiptAfterResponse = true then
          Phase.unrecorded response else Phase.ready response) →
          Flight.asRetry P key hash ⟨q, phase⟩ = some (some response) := by
        rintro phase rfl
        split_ifs
        · exact asRetry_past hretry rfl
        · exact asRetry_past hretry rfl
      refine h.executed hretry hok hat ?_ ?_
      · rw [Server.answered, if_pos hkeyed, Server.setFlight_cache, hcache]
      · rw [Server.answered, if_pos hkeyed, retries_setFlight, hsame, hcarries _ rfl]
    · have hkeyed : ¬ (q.cacheKey.isSome && isOk response) = true := by simp [hok]
      have hexec : (Label.executed i q response).executes P key hash = false := by
        simp [Label.executes, hok]
      refine h.gone hexec ?_ (i := i) ?_ ?_ (by simp [hat, Phase.response])
      · rintro r ⟨q', hq', -, hr⟩
        rw [Label.answer, if_neg hkeyed] at hq'
        obtain ⟨-, rfl⟩ := Prod.mk.inj (Option.some.inj hq')
        exact hok hr
      · rw [Server.answered, if_neg hkeyed, Server.clear_cache, hcache]
      · rw [Server.answered, if_neg hkeyed, retries_clear, hsame]
  · rw [asRetry_of_not hretry] at hat
    have hexec : (Label.executed i q response).executes P key hash = false := by
      simp [Label.executes, hretry]
    have hsucc : ∀ r, ¬ (Label.executed i q response).Succeeds P key hash r := by
      rintro r ⟨q', hq', hretry', -⟩
      rw [Label.answer] at hq'
      split_ifs at hq'
      obtain ⟨rfl, -⟩ := Prod.mk.inj (Option.some.inj hq')
      exact hretry hretry'
    refine h.same hexec hsucc ?_ ?_
    · unfold Server.answered
      split_ifs
      · rw [Server.setFlight_cache, hcache]
      · rw [Server.setFlight_cache, hcache]
      · rw [Server.clear_cache, hcache]
    · rw [← hsame] at hat ⊢
      unfold Server.answered
      split_ifs
      · exact retries_setFlight_self ((asRetry_of_not hretry _).trans hat.symm)
      · exact retries_setFlight_self ((asRetry_of_not hretry _).trans hat.symm)
      · exact retries_clear_self hat

/-- An answer that is not good is no success. -/
theorem not_succeeds {q : Request} {response : String} (hanswer : label.answer = some (q, response))
    (h : q.IsRetry P key hash → isOk response = false) (r : String) :
    ¬ label.Succeeds P key hash r := by
  rintro ⟨q', hq', hretry, hok⟩
  rw [hanswer] at hq'
  obtain ⟨rfl, rfl⟩ := Prod.mk.inj (Option.some.inj hq')
  rw [h hretry] at hok
  cases hok

theorem not_succeeds_of_none (hanswer : label.answer = none) (r : String) :
    ¬ label.Succeeds P key hash r := by
  rintro ⟨q', hq', -⟩
  rw [hanswer] at hq'
  cases hq'

/-- **Every step keeps it.** -/
theorem step (h : Kept P key hash trace s) (hapart : Apart P key hash s label)
    (hstep : Step P s label s') : Kept P key hash (trace ++ [label]) s' := by
  cases hstep with
  | @arrive s₁ i q hnone hactor =>
    have hsame : s₁.flights = s.flights ∧ s₁.cache = s.cache := by
      rcases Server.forActor_cases hactor with rfl | ⟨_, _, _, _, _, rfl⟩
      · exact ⟨rfl, rfl⟩
      · exact ⟨rfl, rfl⟩
    have hretries : s₁.retries P key hash = s.retries P key hash := retries_congr hsame.1
    have hat : s₁.retries P key hash i = none := by
      rw [Server.retries, Server.project, hsame.1, hnone]
      rfl
    refine h.same rfl (not_succeeds_of_none rfl) (by rw [Server.setFlight_cache, hsame.2]) ?_
    rw [retries_setFlight_self ((asRetry_arrived q).trans hat.symm), hretries]
  | refuse i q _ _ =>
    exact h.same rfl (not_succeeds rfl fun _ => isOk_badRequest _) rfl rfl
  | @replay i q response hi hlookup =>
    have hat : s.retries P key hash i = none := (retries_of_flight hi).trans (asRetry_arrived q)
    have hretries := retries_clear_self hat
    by_cases hgood : q.IsRetry P key hash ∧ isOk response = true
    · -- A good answer to a retry is the entry of its body.
      have hentry := Server.get_of_lookup_ok hgood.1.1 hlookup hgood.2
      rw [hgood.1.2] at hentry
      exact (h.replayed hentry).congr rfl hretries
    · have hbad : q.IsRetry P key hash → isOk response = false := by
        intro hretry
        exact Bool.eq_false_iff.2 fun hok => hgood ⟨hretry, hok⟩
      exact h.same rfl (not_succeeds rfl hbad) rfl hretries
  | @miss i q hi hlookup =>
    have hat : s.retries P key hash i = none := (retries_of_flight hi).trans (asRetry_arrived q)
    by_cases hretry : q.IsRetry P key hash
    · have hcache := Server.get_of_lookup_none hretry.1 hlookup
      refine h.missed (hapart hretry) hcache rfl ?_
      rw [retries_setFlight, asRetry_past hretry rfl]
      rfl
    · exact h.same rfl (not_succeeds_of_none rfl) rfl
        (retries_setFlight_self ((asRetry_of_not hretry _).trans hat.symm))
  | @execute i q db db' response hi hdb hsection =>
    exact h.answered hi (s.setDb_flights q.shard db') (s.setDb_cache q.shard db')
  | @fail i q db db' e hi hdb hsection =>
    refine h.gone rfl (not_succeeds rfl fun _ => isOk_badRequest _) (i := i) ?_ ?_ ?_
    · rw [Server.clear_cache, Server.setDb_cache]
    · rw [retries_clear, retries_congr (s.setDb_flights q.shard db')]
    · intro r hr
      rw [retries_of_flight hi, Flight.asRetry] at hr
      split_ifs at hr
      cases Option.some.inj hr
  | @record i q db db' response key' reply hi hkey hdb hrun =>
    have hretries : (s.setDb q.shard db').retries P key hash = s.retries P key hash :=
      retries_congr (s.setDb_flights q.shard db')
    refine h.same rfl (not_succeeds_of_none rfl)
      (by rw [Server.setFlight_cache, Server.setDb_cache]) ?_
    rw [retries_setFlight_self, hretries]
    rw [hretries, retries_of_flight hi]
    rfl
  | @unrecord i q db db' response key' e hi hkey hdb hrun =>
    have hat : s.retries P key hash i = none :=
      (retries_of_flight hi).trans (asRetry_of_not hapart _)
    have hretries : (s.setDb q.shard db').retries P key hash = s.retries P key hash :=
      retries_congr (s.setDb_flights q.shard db')
    refine h.same rfl (not_succeeds rfl fun _ => isOk_badRequest _)
      (by rw [Server.clear_cache, Server.setDb_cache]) ?_
    rw [retries_clear_self (by rw [hretries, hat]), hretries]
  | @insert i q response key' hi hkey =>
    have hat : s.retries P key hash i = Flight.asRetry P key hash ⟨q, .ready response⟩ :=
      retries_of_flight hi
    by_cases hretry : q.IsRetry P key hash
    · rw [asRetry_past hretry rfl] at hat
      obtain rfl : key' = key := Option.some.inj (hkey.symm.trans hretry.1)
      refine h.inserted hat ?_ (retries_clear _ i)
      rw [Server.clear_cache, ← hretry.2]
      exact IdempotencyCacheState.get_insert_self ..
    · rw [asRetry_of_not hretry] at hat
      have hsucc : ∀ r, ¬ (Label.inserted i q response).Succeeds P key hash r :=
        not_succeeds rfl fun hr => absurd hr hretry
      by_cases hother : key' = key
      · subst hother
        have hhash : q.bodyHash P ≠ hash := fun heq => hretry ⟨hkey, heq⟩
        exact h.overwritten rfl hsucc (IdempotencyCacheState.get_insert_self ..) hhash
          (retries_clear_self hat)
      · exact h.same rfl hsucc (IdempotencyCacheState.get_insert_of_ne _ (Ne.symm hother) _)
          (retries_clear_self hat)
  | @drop i flight hi hready =>
    exact h.gone rfl (not_succeeds_of_none rfl) rfl (retries_clear s i) hapart
  | restart _ _ _ => exact hapart.elim

end Kept

/-- **Retries that are kept apart execute once**: from any state of a server in which none of them
is past its lookup, one operation is executed, all good answers are the same, and an operation that
fails leaves every database alone. -/
theorem at_most_once {dir : String} {first start : Server} {past : List Label}
    (hfirst : openServerState P (Disk.empty dir) (fun path => some (Disk.empty path)) = .ok first)
    (hpast : Runs (Step P) (fun _ _ => True) first past start)
    (hnone : ∀ i, start.retries P key hash i = none) {trace : List Label} {s : Server}
    (h : Runs (Step P) (Apart P key hash) start trace s) :
    AtMostOnce P key hash trace ∧
      ∀ i q response s', Step P s (.failed i q response) s' → s' = s.clear i := by
  have hkept : Kept P key hash trace s :=
    h.invariant (Kept.start hnone) fun _ _ _ _ hapart hstep hs => hs.step hapart hstep
  have hsound : s.Sound P := Server.Sound.runs (Server.Sound.runs (.started hfirst) hpast) h
  refine ⟨⟨hkept.once, ?_⟩, fun i q response s' hstep => hstep.fail_unchanged hsound⟩
  obtain ⟨response, hanswers, -, -⟩ := hkept.agree
  intro label hlabel label' hlabel' r r' hr hr'
  exact (hanswers label hlabel r hr).trans (hanswers label' hlabel' r' hr').symm

/-! ### Two retries -/

/-- A retry after the first answer: one operation, and one answer for both. -/
theorem at_most_once_after_answer :
    ∃ response trace s,
      Runs (Step .reference)
        (Apart .reference (createKey "local") (createRequest.bodyHash .reference))
        (Server.initial .reference "db")
        (trace ++ [.replayed 1 createRequest response]) s ∧
      .inserted 0 createRequest response ∈ trace ∧
      AtMostOnce .reference (createKey "local") (createRequest.bodyHash .reference)
        (trace ++ [.replayed 1 createRequest response]) := by
  obtain ⟨plan, -, hplan, -, hfit, -⟩ := plans_of_createOp
  have hkey : createRequest.cacheKey = some (createKey "local") := createPages_cacheKey "local"
  have hdefault : createRequest.shard.isDefault = true := by decide
  have hroute : createRequest.route.recordsReceiptAfterResponse = false := by decide
  have hsync : Synced .reference (initialDb .reference "db") [] := synced_initialDb "db"
  have hnone : ∀ i, (Server.initial .reference "db").retries .reference (createKey "local")
      (createRequest.bodyHash .reference) i = none := fun _ => rfl
  have h₀ : Runs (Step .reference)
      (Apart .reference (createKey "local") (createRequest.bodyHash .reference))
      (Server.initial .reference "db") [] (Server.initial .reference "db") := .start
  have h₁ := h₀.step (by exact trivial)
    (Step.arrive_default (i := 0) (q := createRequest) rfl hdefault)
  have hapart : ∀ j,
      ((Server.initial .reference "db").setFlight 0 ⟨createRequest, .arrived⟩).retries
      .reference (createKey "local") (createRequest.bodyHash .reference) j = none := by
    intro j
    rw [retries_setFlight_self (asRetry_arrived _)]
    rfl
  have h₂ := h₁.step (by exact fun _ => hapart)
    (Step.miss (i := 0) rfl (Server.lookup_of_get_none hkey rfl))
  have h₃ := h₂.step (by exact trivial)
    (Step.execute_run (i := 0) rfl rfl createRequest_decode hsync hplan hfit)
  rw [Server.setDb_default hdefault,
    Server.answered_mutation hkey (isOk_httpOkJson _) hroute] at h₃
  have h₄ := h₃.step (by exact trivial) (Step.insert (i := 0) rfl hkey)
  have h₅ := h₄.step (by exact trivial)
    (Step.arrive_default (i := 1) (q := createRequest) rfl hdefault)
  have h₆ := h₅.step (by exact trivial) (Step.replay (i := 1) rfl
    ((Server.lookup_of_get_some hkey (IdempotencyCacheState.get_insert_self ..)).trans
      (congrArg some (if_pos rfl))))
  refine ⟨_, _, _, h₆, by simp, ?_⟩
  exact (at_most_once (openServerState_empty "db") .start hnone h₆).1

/-- **Two retries that both look the cache up first are both executed.** -/
theorem two_lookups_execute_twice :
    ∃ first trace s,
      openServerState .reference (Disk.empty "db") (fun path => some (Disk.empty path)) =
        .ok first ∧
      Runs (Step .reference) (fun _ label => label ≠ .restarted) first trace s ∧
      ¬ AtMostOnce .reference (createKey "local") (createRequest.bodyHash .reference) trace := by
  obtain ⟨plan, plan', hplan, hplan', hfit, hfit'⟩ := plans_of_createOp
  have hkey : createRequest.cacheKey = some (createKey "local") := createPages_cacheKey "local"
  have hdefault : createRequest.shard.isDefault = true := by decide
  have hroute : createRequest.route.recordsReceiptAfterResponse = false := by decide
  have hsync : Synced .reference (initialDb .reference "db") [] := synced_initialDb "db"
  have hstamp := stamped_plan hplan
  have hsync' := hsync.committed hstamp.engine hstamp.epoch hfit (readBack _ _)
  -- Both arrive and look the cache up.
  have h₀ : Runs (Step .reference) (fun _ label => label ≠ .restarted)
      (Server.initial .reference "db") [] (Server.initial .reference "db") := .start
  have h₁ := h₀.step (by simp) (Step.arrive_default (i := 0) (q := createRequest) rfl hdefault)
  have h₂ := h₁.step (by simp) (Step.arrive_default (i := 1) (q := createRequest) rfl hdefault)
  have h₃ := h₂.step (by simp) (Step.miss (i := 0) rfl (Server.lookup_of_get_none hkey rfl))
  have h₄ := h₃.step (by simp) (Step.miss (i := 1) rfl (Server.lookup_of_get_none hkey rfl))
  -- Both are executed, one after the other.
  have h₅ := h₄.step (by simp)
    (Step.execute_run (i := 0) rfl rfl createRequest_decode hsync hplan hfit)
  rw [Server.setDb_default hdefault,
    Server.answered_mutation hkey (isOk_httpOkJson _) hroute] at h₅
  have h₆ := h₅.step (by simp)
    (Step.execute_run (i := 1) rfl rfl createRequest_decode hsync' hplan' hfit')
  refine ⟨_, _, _, openServerState_empty "db", h₆, fun hatmost => ?_⟩
  have hretry : createRequest.IsRetry .reference (createKey "local")
      (createRequest.bodyHash .reference) := ⟨hkey, rfl⟩
  have hcount := hatmost.1
  simp [Label.executes, hretry, isOk_httpOkJson] at hcount

end TraceDB
