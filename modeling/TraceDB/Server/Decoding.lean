import TraceDB.Server.Actor
import TraceDB.Server.Tenants

/-!
# Panics while a request is decoded

`actor_context_from_request` runs before a request is routed, and `split_traceql_command` once more
when it is dispatched.  Both compare the front of a query text with the commands of TraceQL, each of
which cuts the text at its own length.

* `decoding_safe_iff` : a request is decoded without a panic if and only if no command that is tried
  on its query text ends inside a character.
* `query_cut_inside_character` : the text `aaé` panics, since `PUT` ends inside its last character.
-/

namespace TraceDB

variable {S : Type} (X : RouteFormat S)

/-- Looking for the tenant of a body comes to its TraceQL text. -/
def ReachesTraceql (value : Value) : Prop :=
  jsonString value "tenant_id" = none ∧ firstRecordJsonString value "tenant_id" = none ∧
    graphqlTenantFromBody X value = some none

theorem traceqlTenantFromBody_eq_none_iff (value : Value) :
    traceqlTenantFromBody X value = none ↔
      ∃ query, (value.get "query").bind Value.asStr = some query ∧
        CutsCommand (Text.trim query) traceqlCommands := by
  rw [traceqlTenantFromBody]
  cases (value.get "query").bind Value.asStr with
  | none => simp
  | some query =>
    have hcut := splitTraceqlCommand_eq_none_iff query
    dsimp only
    constructor
    · intro h
      cases hsplit : splitTraceqlCommand query with
      | none => exact ⟨query, rfl, hcut.1 hsplit⟩
      | some command =>
        rw [hsplit] at h
        cases h
    · rintro ⟨query', heq, hcuts⟩
      obtain rfl := Option.some.inj heq
      rw [hcut.2 hcuts]
      rfl

theorem bodyTenant_eq_none_iff (body : String) :
    bodyTenant X body = none ↔
      ∃ value query, X.valueFromStr body = .ok value ∧ ReachesTraceql X value ∧
        (value.get "query").bind Value.asStr = some query ∧
        CutsCommand (Text.trim query) traceqlCommands := by
  rw [bodyTenant]
  cases hvalue : X.valueFromStr body with
  | error e => simp
  | ok value =>
    dsimp only
    have hreaches : ReachesTraceql X value ↔
        (jsonString value "tenant_id").or (firstRecordJsonString value "tenant_id") = none ∧
          graphqlTenantFromBody X value = some none := by
      rw [ReachesTraceql, Option.or_eq_none_iff, and_assoc]
    have hgoal : (∃ value' query, (Except.ok value : Except String Value) = .ok value' ∧
        ReachesTraceql X value' ∧ (value'.get "query").bind Value.asStr = some query ∧
          CutsCommand (Text.trim query) traceqlCommands) ↔
        ReachesTraceql X value ∧ traceqlTenantFromBody X value = none := by
      rw [traceqlTenantFromBody_eq_none_iff]
      constructor
      · rintro ⟨value', query, heq, hreach, hquery, hcuts⟩
        obtain rfl := Except.ok.inj heq
        exact ⟨hreach, query, hquery, hcuts⟩
      · rintro ⟨hreach, query, hquery, hcuts⟩
        exact ⟨value, query, rfl, hreach, hquery, hcuts⟩
    rw [hgoal, hreaches]
    obtain ⟨tenant, htenant⟩ := Option.isSome_iff_exists.1 (graphqlTenantFromBody_isSome X value)
    rw [htenant]
    cases (jsonString value "tenant_id").or (firstRecordJsonString value "tenant_id") with
    | some found => simp
    | none => cases tenant <;> simp

/-- When reading the actor of a request panics. -/
theorem actorContextFromRequest_eq_none_iff (request body : String) :
    actorContextFromRequest X request body = none ↔
      ∃ value query, X.valueFromStr body = .ok value ∧ ReachesTraceql X value ∧
        (value.get "query").bind Value.asStr = some query ∧
        CutsCommand (Text.trim query) traceqlCommands := by
  rw [← bodyTenant_eq_none_iff, actorContextFromRequest]
  cases bodyTenant X body with
  | none => exact ⟨fun _ => rfl, fun _ => rfl⟩
  | some tenant => exact ⟨fun h => absurd h (Option.some_ne_none _), fun h => by cases h⟩

theorem ofExcept_ne_panics (x : Except String (Command S)) : Parsed.ofExcept x ≠ .panics := by
  cases x <;> exact fun h => by cases h

/-- The body of a TraceQL request. -/
theorem Request.parse_traceql {q : Request} (hmethod : q.method = "POST")
    (hpath : q.path = "/v1/traceql") :
    q.parse X = match X.traceqlFromStr q.body with
      | .error e => .refused e
      | .ok text =>
        match splitTraceqlCommand text with
        | none => .panics
        | some none => .ofExcept (.query <$> X.traceqlQueryFromStr text)
        | some (some (command, payload)) => .ofExcept (traceqlCommand X command payload) := by
  rewrite [Request.parse, if_neg (not_not.2 hmethod), hpath]
  rfl

/-- When the dispatch of a request panics. -/
theorem Request.parse_eq_panics_iff (q : Request) :
    q.parse X = .panics ↔ q.method = "POST" ∧ q.path = "/v1/traceql" ∧
      ∃ query, X.traceqlFromStr q.body = .ok query ∧
        CutsCommand (Text.trim query) traceqlCommands := by
  by_cases hmethod : q.method = "POST"
  swap
  · rw [Request.parse, if_pos hmethod]
    exact ⟨fun h => absurd h (by simp), fun h => absurd h.1 hmethod⟩
  by_cases hpath : q.path = "/v1/traceql"
  · rw [Request.parse_traceql X hmethod hpath]
    cases hquery : X.traceqlFromStr q.body with
    | error e => simp
    | ok query =>
      have hcut := splitTraceqlCommand_eq_none_iff query
      dsimp only
      cases hsplit : splitTraceqlCommand query with
      | none => exact ⟨fun _ => ⟨hmethod, hpath, query, rfl, hcut.1 hsplit⟩, fun _ => rfl⟩
      | some command =>
        have hnot : ¬ CutsCommand (Text.trim query) traceqlCommands := fun h => by
          rw [hcut.2 h] at hsplit
          cases hsplit
        refine ⟨fun h => ?_, ?_⟩
        · cases command <;> exact absurd h (ofExcept_ne_panics _)
        · rintro ⟨-, -, query', heq, hcuts⟩
          obtain rfl := Except.ok.inj heq
          exact absurd hcuts hnot
  · refine ⟨fun h => ?_, fun h => absurd h.2.1 hpath⟩
    rw [Request.parse, if_neg (not_not.2 hmethod)] at h
    split at h <;> first
      | exact absurd h (ofExcept_ne_panics _)
      | exact absurd ‹q.path = "/v1/traceql"› hpath
      | (split at h <;> first
          | cases h
          | exact absurd h (ofExcept_ne_panics _)
          | (split at h <;> cases h))
      | cases h

/-- A request is decoded and dispatched without a panic if and only if no command that is tried on
its query text ends inside a character: the text in the member `query` of the body, if the search
for the tenant comes to it, and the text of a TraceQL request. -/
theorem decoding_safe_iff (request : String) (q : Request) :
    ((actorContextFromRequest X request q.body).isSome = true ∧ q.parse X ≠ .panics) ↔
      (∀ value query, X.valueFromStr q.body = .ok value → ReachesTraceql X value →
        (value.get "query").bind Value.asStr = some query →
          ¬ CutsCommand (Text.trim query) traceqlCommands) ∧
      (q.method = "POST" → q.path = "/v1/traceql" → ∀ query, X.traceqlFromStr q.body = .ok query →
        ¬ CutsCommand (Text.trim query) traceqlCommands) := by
  rw [← Option.ne_none_iff_isSome, ne_eq, ne_eq, actorContextFromRequest_eq_none_iff,
    Request.parse_eq_panics_iff]
  constructor
  · rintro ⟨hactor, hparse⟩
    exact ⟨fun value query hvalue hreach hquery hcuts => hactor ⟨value, query, hvalue, hreach,
      hquery, hcuts⟩,
      fun hmethod hpath query hquery hcuts => hparse ⟨hmethod, hpath, query, hquery, hcuts⟩⟩
  · rintro ⟨hactor, hparse⟩
    refine ⟨?_, ?_⟩
    · rintro ⟨value, query, hvalue, hreach, hquery, hcuts⟩
      exact hactor value query hvalue hreach hquery hcuts
    · rintro ⟨hmethod, hpath, query, hquery, hcuts⟩
      exact hparse hmethod hpath query hquery hcuts

/-- A body whose query text has a character of two bytes at its third byte. -/
def accentedBody : String := "\x7b\"query\":\"aaé\"\x7d"

/-- The reference format, which reads this body. -/
def RouteFormat.accented : RouteFormat ℚ :=
  { RouteFormat.reference with
    valueFromStr := fun body =>
      if body = accentedBody then .ok (.object [("query", .string "aaé")])
        else .error expectedValue }

/-- A request with that body panics before it is routed. -/
theorem query_cut_inside_character :
    actorContextFromRequest RouteFormat.accented
      ("POST /v1/traceql HTTP/1.1\r\n\r\n" ++ accentedBody) accentedBody = none := by
  decide +kernel

end TraceDB
