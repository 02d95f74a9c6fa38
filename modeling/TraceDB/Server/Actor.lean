import TraceDB.Server.Framing

/-!
# The actor of a request

`actor_context_from_request` runs on every request before it is routed.  It looks for a tenant in
the body: among the members of the JSON, in the input of a GraphQL text, and in the payload or a
`TENANT` line of a TraceQL text.

Here the texts are cut at bytes as in the source, and a cut that is not at a character is a panic
(`none`).

* `graphqlRootFieldAt_eq`, `graphqlInputStringAt_eq`, `quotedPrefixAt_isSome` : the cuts at found
  characters do not panic, and give what `Server.Commands` has.
* `splitTraceqlCommand_eq_none_iff` : the cuts of `split_traceql_command` panic when the length of a
  command ends inside a character.
* `actorContextFromRequest_eq_none_iff` : when reading the actor panics.
-/

namespace TraceDB

/-! ### The GraphQL texts, cut at bytes -/

/-- `graphql_root_field`. -/
def graphqlRootFieldAt (query : List Char) : Option (Option String) :=
  match findByte (· = '\x7b') query with
  | none => some none
  | some bodyStart => (sliceFrom query (bodyStart + 1)).map fun body =>
    let field := (body.dropWhile Text.isWhitespace).takeWhile fun c => c.isAlphanum || c = '_'
    if field.isEmpty then none else some (String.ofList field)

/-- The loop of `split_top_level`: where the part starts, and where the character stands. -/
def splitTopLevelAtFrom (input : List Char) (separator : Char) :
    ℕ → ℕ → ℕ → Bool → Bool → List Char → Option (List String)
  | start, _, _, _, _, [] => (sliceFrom input start).map fun part =>
      [Text.trim (String.ofList part)]
  | start, index, depth, true, escaped, c :: chars =>
    let index' := index + c.utf8Size
    if escaped then splitTopLevelAtFrom input separator start index' depth true false chars
    else if c = '\\' then splitTopLevelAtFrom input separator start index' depth true true chars
    else splitTopLevelAtFrom input separator start index' depth (c ≠ '"') false chars
  | start, index, depth, false, escaped, c :: chars =>
    let index' := index + c.utf8Size
    if c = '"' then splitTopLevelAtFrom input separator start index' depth true escaped chars
    else if c = '(' || c = '[' || c = '\x7b' then
      splitTopLevelAtFrom input separator start index' (depth + 1) false escaped chars
    else if c = ')' || c = ']' || c = '\x7d' then
      splitTopLevelAtFrom input separator start index' (depth - 1) false escaped chars
    else if c = separator && depth = 0 then
      (slice input start index).bind fun part =>
        (splitTopLevelAtFrom input separator index' index' depth false escaped chars).map
          (Text.trim (String.ofList part) :: ·)
    else splitTopLevelAtFrom input separator start index' depth false escaped chars

/-- `graphql_arg_raw`. -/
def graphqlArgRawAt (query : List Char) (field argName : String) : Option (Option String) :=
  match findTextByte field.toList query with
  | none => some none
  | some fieldIndex => do
    let afterField ← sliceFrom query (fieldIndex + field.utf8ByteSize)
    match findByte (· = '(') afterField with
    | none => some none
    | some opening => do
      let arguments ← sliceFrom afterField opening
      match matchingDelimited arguments '(' ')' with
      | none => some none
      | some args => do
        let parts ← splitTopLevelAtFrom args ',' 0 0 0 false false args
        some (parts.findSome? fun part =>
          match part.toList.dropWhile (· ≠ ':') with
          | [] => none
          | _ :: value =>
            let name := String.ofList (part.toList.takeWhile (· ≠ ':'))
            if Text.trim name = argName then some (Text.trim (String.ofList value)) else none)

/-- `quoted_prefix`. -/
def quotedPrefixAt (value : List Char) : Option (Option String) :=
  match value with
  | '"' :: value =>
    match findByte (· = '"') value with
    | none => some none
    | some stop => (sliceTo value stop).map fun text => some (String.ofList text)
  | _ => some none

theorem graphqlRootFieldAt_eq (query : String) :
    graphqlRootFieldAt query.toList = some (graphqlRootField query) := by
  rw [graphqlRootFieldAt, graphqlRootField]
  rcases findByte_char (d := '\x7b') rfl query.toList with ⟨hfind, hdrop⟩ |
    ⟨i, after, hfind, hdrop, -, -, hcut⟩
  · rw [hfind, hdrop]
  · rw [hfind, hdrop]
    simp only [hcut, Option.map_some]

theorem quotedPrefixAt_isSome (value : List Char) : (quotedPrefixAt value).isSome = true := by
  unfold quotedPrefixAt
  split
  · next value =>
    rcases findByte_char (d := '"') rfl value with ⟨hfind, -⟩ | ⟨i, after, hfind, -, hcut, -⟩
    · rw [hfind]
      rfl
    · rw [hfind]
      simp only [hcut]
      rfl
  · rfl

/-- The parts of a text are cut where the loop has found them: `done` is cut off already. -/
theorem splitTopLevelAtFrom_eq (separator : Char) (input : List Char)
    {taken part chars : List Char} (hinput : input = taken ++ (part.reverse ++ chars)) (depth : ℕ)
    (inString escaped : Bool) :
    splitTopLevelAtFrom input separator (byteLength taken)
    (byteLength taken + byteLength part) depth
        inString escaped chars =
      some ((splitTopLevelFrom separator depth inString escaped part chars).map fun part =>
        Text.trim (String.ofList part)) := by
  induction chars generalizing taken part depth inString escaped with
  | nil =>
    rw [splitTopLevelAtFrom, splitTopLevelFrom, hinput, List.append_nil, sliceFrom_append]
    rfl
  | cons c chars ih =>
    have hnext : byteLength taken + byteLength part + c.utf8Size =
        byteLength taken + byteLength (c :: part) := by
      rw [byteLength_cons]
      omega
    have hlonger : input = taken ++ ((c :: part).reverse ++ chars) := by
      rw [hinput, List.reverse_cons, List.append_assoc]
      rfl
    cases inString with
    | true =>
      rw [splitTopLevelAtFrom, splitTopLevelFrom, hnext]
      simp only [ih hlonger]
      split_ifs <;> rfl
    | false =>
      -- At a separator, what is taken grows by the part and the separator.
      have hcut : slice input (byteLength taken) (byteLength taken + byteLength part) =
          some part.reverse := by
        rw [hinput, ← byteLength_reverse part]
        exact slice_append _ _ _
      have hrest := @ih (taken ++ (part.reverse ++ [c])) []
        (by rw [hinput]; simp only [List.append_assoc, List.reverse_nil]; rfl) depth false escaped
      have hdone : byteLength (taken ++ (part.reverse ++ [c])) =
          byteLength taken + byteLength (c :: part) := by
        simp only [byteLength_append, byteLength_cons, byteLength_reverse, byteLength_nil]
        omega
      rw [byteLength_nil, Nat.add_zero, hdone] at hrest
      rw [splitTopLevelAtFrom, splitTopLevelFrom]
      simp only [hnext, ih hlonger, hcut, hrest, Option.bind_some, Option.map_some]
      split_ifs <;> rfl

theorem graphqlArgRawAt_eq (query field argName : String) :
    graphqlArgRawAt query.toList field argName = some (graphqlArgRaw query field argName) := by
  have hfield := findTextByte_eq field.toList query.toList
  rw [graphqlArgRawAt, graphqlArgRaw]
  cases hafter : afterFirst field.toList query.toList with
  | none =>
    rw [hafter] at hfield
    rw [hfield]
    rfl
  | some afterField =>
    rw [hafter] at hfield
    obtain ⟨before, hquery, hfind⟩ := hfield
    have hcut : sliceFrom query.toList (byteLength before + field.utf8ByteSize) =
        some afterField := by
      rw [hquery, ← List.append_assoc, utf8ByteSize_eq, ← byteLength_append]
      exact sliceFrom_append _ _
    rw [hfind]
    simp only [hcut, Option.bind_eq_bind, Option.bind_some]
    rcases findByte_char (d := '(') rfl afterField with ⟨hopen, hdrop⟩ |
      ⟨i, after, hopen, hdrop, -, hargs, -⟩
    · rw [hopen, matchingDelimited, hdrop]
      rfl
    · have hmatching : matchingDelimited ('(' :: after) '(' ')' =
          matchingDelimited afterField '(' ')' := by
        rw [matchingDelimited, matchingDelimited, hdrop]
        rfl
      rw [hopen]
      simp only [hargs, Option.bind_some, hmatching]
      cases matchingDelimited afterField '(' ')' with
      | none => rfl
      | some args =>
        have hparts := @splitTopLevelAtFrom_eq ',' args [] [] args rfl 0 false false
        simp only [byteLength_nil, Nat.add_zero] at hparts
        simp only [hparts, Option.bind_some]
        rfl

/-! ### The tenant of a body -/

/-- `json_string`. -/
def jsonString (value : Value) (field : String) :
    Option String := (value.get field).bind Value.asStr

/-- `first_record_json_string`. -/
def firstRecordJsonString (value : Value) (field : String) : Option String := do
  let records ← (value.get "records").bind Value.asArray
  let record ← records.head?
  jsonString record field

/-- The tenant in the JSON of an operation. -/
def operationTenant (value : Value) : Option String :=
  (jsonString value "tenant_id").or <| (jsonString value "tenant").or <|
    ((value.get "record").bind (jsonString · "tenant_id")).or
      (firstRecordJsonString value "tenant_id")

/-- The tenant of a line `TENANT ..`. -/
def tenantOfLine (line : String) : Option String :=
  let line := Text.strip line.toList
  if "TENANT ".toList.isPrefixOf line then
    let tenant := Text.strip (line.drop "TENANT ".length)
    if tenant = [] then none else some (String.ofList tenant)
  else none

variable {S : Type} (X : RouteFormat S)

/-- `graphql_input_string`. -/
def graphqlInputStringAt (request : GraphQlQueryRequest) (field : String) :
    Option (Except String String) :=
  (graphqlArgRawAt request.query.toList field "input").map fun raw =>
    match raw with
    | none => .error (field ++ " input argument is required")
    | some raw =>
      match raw.toList with
      | '$' :: name =>
        match request.variableValues.get (String.ofList name) with
        | none => .error ("GraphQL variable $" ++ String.ofList name ++ " is required")
        | some (.string value) => .ok value
        | some other => .ok (X.valueToString other)
      | _ =>
        (X.stringFromStr raw).mapError fun error =>
          field ++ " input must be a GraphQL string: " ++ error

/-- The tenant in the input of the root field of a GraphQL text. -/
def graphqlInputTenant (request : GraphQlQueryRequest) : Option (Option String) := do
  match ← graphqlRootFieldAt request.query.toList with
  | none => some none
  | some field => (graphqlInputStringAt X request field).map fun input =>
    (input.toOption.bind fun input => (X.valueFromStr input).toOption).bind operationTenant

/-- The text in quotes after the first `tenant_id:`. -/
def markedTenant (query : String) : Option (Option String) :=
  match (Text.split "tenant_id:" query)[1]? with
  | none => some none
  | some afterMarker => quotedPrefixAt (Text.trimStart afterMarker.toList)

/-- `graphql_tenant_from_body`. -/
def graphqlTenantFromBody (value : Value) : Option (Option String) :=
  match (value.get "query").bind Value.asStr with
  | none => some none
  | some query => do
    match ← graphqlInputTenant X ⟨query, (value.get "variables").getD .null⟩ with
    | some tenant => some (some tenant)
    | none => markedTenant query

/-- `traceql_tenant_from_body`. -/
def traceqlTenantFromBody (value : Value) : Option (Option String) :=
  match (value.get "query").bind Value.asStr with
  | none => some none
  | some query => do
    let command ← splitTraceqlCommand query
    let payloadTenant := command.bind fun (_, payload) =>
      (X.valueFromStr payload).toOption.bind operationTenant
    some (payloadTenant.or ((Text.lines query).findSome? tenantOfLine))

/-- The tenant that `actor_context_from_request` finds in a body. -/
def bodyTenant (body : String) : Option (Option String) :=
  match X.valueFromStr body with
  | .error _ => some none
  | .ok value =>
    match (jsonString value "tenant_id").or (firstRecordJsonString value "tenant_id") with
    | some tenant => some (some tenant)
    | none => do
      match ← graphqlTenantFromBody X value with
      | some tenant => some (some tenant)
      | none => traceqlTenantFromBody X value

/-- `actor_context_from_request`, without the request id. -/
def actorContextFromRequest (request body : String) : Option ActorContext := do
  let bodyJson := (X.valueFromStr body).toOption
  let bodyTenant ← bodyTenant X body
  let databaseId := ((headerValue request "x-tracedb-database-id").or
    (bodyJson.bind (jsonString · "database_id"))).getD "local"
  let branchId := ((headerValue request "x-tracedb-branch-id").or
    (bodyJson.bind (jsonString · "branch_id"))).getD "main"
  let tenantId := ((headerValue request "x-tracedb-tenant-id").or bodyTenant).getD "local"
  let bearer := (headerValue request "authorization").bind fun value =>
    if Text.startsWith value "Bearer " then some "bearer" else none
  let tokenIdentity := ((headerValue request "x-tracedb-token-identity").or bearer).getD "anonymous"
  -- A `u64` has the range of a `usize`.
  let policyEpoch := ((headerValue request "x-tracedb-policy-epoch").bind parseUsize).getD 0
  let scopes := ((headerValue request "x-tracedb-scopes").map fun value =>
    ((Text.split "," value).map Text.trim).filter (· ≠ "")).getD []
  some (.managedRequest tenantId databaseId branchId tokenIdentity policyEpoch scopes)

theorem graphqlInputStringAt_eq (request : GraphQlQueryRequest) (field : String) :
    graphqlInputStringAt X request field = some (graphqlInputString X request field) := by
  rewrite [graphqlInputStringAt, graphqlInputString, graphqlArgRawAt_eq, Option.map_some]
  rfl

theorem graphqlInputTenant_isSome (request : GraphQlQueryRequest) :
    (graphqlInputTenant X request).isSome = true := by
  rw [graphqlInputTenant, graphqlRootFieldAt_eq]
  cases graphqlRootField request.query with
  | none => rfl
  | some field =>
    simp only [Option.bind_eq_bind, Option.bind_some, graphqlInputStringAt_eq]
    rfl

theorem markedTenant_isSome (query : String) : (markedTenant query).isSome = true := by
  rw [markedTenant]
  cases (Text.split "tenant_id:" query)[1]? with
  | none => rfl
  | some afterMarker => exact quotedPrefixAt_isSome _

/-- Looking for the tenant of a GraphQL text does not panic. -/
theorem graphqlTenantFromBody_isSome (value : Value) :
    (graphqlTenantFromBody X value).isSome = true := by
  rw [graphqlTenantFromBody]
  cases (value.get "query").bind Value.asStr with
  | none => rfl
  | some query =>
    obtain ⟨tenant, htenant⟩ := Option.isSome_iff_exists.1
      (graphqlInputTenant_isSome X ⟨query, (value.get "variables").getD .null⟩)
    simp only [htenant, Option.bind_eq_bind, Option.bind_some]
    cases tenant with
    | some tenant => rfl
    | none => exact markedTenant_isSome query

/-! ### The commands of TraceQL -/

/-- A text is the command of an entry, and no cut inside a character has come before. -/
def IsCommand (trimmed : String) (entry : String × TraceqlCommand) : Prop :=
  eqIgnoreAsciiCase trimmed.toList entry.1.toList = true ∨
    ∃ before after, trimmed.toList = before ++ after ∧
    eqIgnoreAsciiCase before entry.1.toList = true ∧
      after.head?.any isAsciiWhitespace = true ∧
      ¬ (entry.2 = .explain ∧
        startsWithSqlishSelectPayload (Text.trim (String.ofList after)).toList = true)

/-- The end of the command of an entry lies inside a character of the text. -/
def CutsAt (trimmed : String) (entry : String × TraceqlCommand) : Prop :=
  CutsCharacter trimmed.toList entry.1.utf8ByteSize

/-- The loop of `split_traceql_command` at one entry. -/
theorem splitTraceqlCommandAmong_cons (trimmed : String) (entry : String × TraceqlCommand)
    (rest : List (String × TraceqlCommand)) :
    (CutsAt trimmed entry ∧ ¬ IsCommand trimmed entry ∧
        splitTraceqlCommandAmong trimmed (entry :: rest) = none) ∨
      (¬ CutsAt trimmed entry ∧ IsCommand trimmed entry ∧
        ∃ command, splitTraceqlCommandAmong trimmed (entry :: rest) = some (some command)) ∨
      (¬ CutsAt trimmed entry ∧ ¬ IsCommand trimmed entry ∧
        splitTraceqlCommandAmong trimmed (entry :: rest) =
          splitTraceqlCommandAmong trimmed rest) := by
  obtain ⟨text, command⟩ := entry
  have hbytes : ∀ {before after : List Char}, trimmed.toList = before ++ after →
      eqIgnoreAsciiCase before text.toList = true →
      splitBytes trimmed.toList text.utf8ByteSize = some (before, after) := by
    intro before after htext heq
    rw [utf8ByteSize_eq, ← byteLength_of_eqIgnoreAsciiCase heq]
    exact splitBytes_eq_some_iff.2 ⟨htext, rfl⟩
  have hcut : ∀ {before after : List Char},
      splitBytes trimmed.toList text.utf8ByteSize = some (before, after) →
      ¬ CutsAt trimmed (text, command) := by
    intro before after hsplit hcuts
    rw [splitBytes_eq_none_iff.2 (.inr hcuts)] at hsplit
    cases hsplit
  rw [splitTraceqlCommandAmong]
  by_cases hwhole : eqIgnoreAsciiCase trimmed.toList text.toList = true
  · rw [if_pos hwhole]
    exact .inr (.inl ⟨hcut (hbytes (List.append_nil _).symm hwhole), .inl hwhole, _, rfl⟩)
  rw [if_neg hwhole]
  by_cases hlonger : text.utf8ByteSize < trimmed.utf8ByteSize
  swap
  · -- The text is no longer than the command: it neither goes on after it nor is cut by it.
    rw [if_neg hlonger]
    refine .inr (.inr ⟨?_, ?_, rfl⟩)
    · rintro ⟨before, c, after, htext, -, hhigh⟩
      rw [utf8ByteSize_eq trimmed, htext, byteLength_append, byteLength_cons] at hlonger
      have hinside : text.utf8ByteSize < byteLength before + c.utf8Size := hhigh
      omega
    · rintro (heq | ⟨before, after, htext, heq, hspace, -⟩)
      · exact hwhole heq
      · have hbefore : byteLength before = text.utf8ByteSize :=
          (byteLength_of_eqIgnoreAsciiCase heq).trans (utf8ByteSize_eq text).symm
        rw [utf8ByteSize_eq trimmed, htext, byteLength_append, hbefore] at hlonger
        cases after with
        | nil => cases hspace
        | cons c after =>
          have hpos := c.utf8Size_pos
          rw [byteLength_cons] at hlonger
          omega
  rw [if_pos hlonger]
  cases hsplit : splitBytes trimmed.toList text.utf8ByteSize with
  | none =>
    refine .inl ⟨?_, ?_, rfl⟩
    · rcases splitBytes_eq_none_iff.1 hsplit with hlong | hcuts
      · rw [← utf8ByteSize_eq] at hlong
        omega
      · exact hcuts
    · rintro (heq | ⟨before, after, htext, heq, -, -⟩)
      · exact hwhole heq
      · rw [hbytes htext heq] at hsplit
        cases hsplit
  | some parts =>
    obtain ⟨before, after⟩ := parts
    have htext := (splitBytes_eq_some_iff.1 hsplit).1
    have honly : ∀ {before' after' : List Char}, trimmed.toList = before' ++ after' →
        eqIgnoreAsciiCase before' text.toList = true → before' = before ∧ after' = after := by
      intro before' after' htext' heq'
      have hsame := hbytes htext' heq'
      rw [hsplit] at hsame
      obtain ⟨rfl, rfl⟩ := Prod.mk.inj (Option.some.inj hsame)
      exact ⟨rfl, rfl⟩
    dsimp only
    by_cases hcommand : (eqIgnoreAsciiCase before text.toList &&
        after.head?.any isAsciiWhitespace) = true
    · obtain ⟨heq, hspace⟩ := (Bool.and_eq_true _ _).mp hcommand
      rw [if_pos hcommand]
      by_cases hselect : command = .explain ∧
          startsWithSqlishSelectPayload (Text.trim (String.ofList after)).toList = true
      · rw [if_pos hselect]
        refine .inr (.inr ⟨hcut hsplit, ?_, rfl⟩)
        rintro (heq' | ⟨before', after', htext', heq', -, hnot⟩)
        · exact hwhole heq'
        · obtain ⟨rfl, rfl⟩ := honly htext' heq'
          exact hnot hselect
      · rw [if_neg hselect]
        exact .inr (.inl ⟨hcut hsplit, .inr ⟨before, after, htext, heq, hspace, hselect⟩, _, rfl⟩)
    · rw [if_neg hcommand]
      refine .inr (.inr ⟨hcut hsplit, ?_, rfl⟩)
      rintro (heq' | ⟨before', after', htext', heq', hspace', -⟩)
      · exact hwhole heq'
      · obtain ⟨rfl, rfl⟩ := honly htext' heq'
        exact hcommand ((Bool.and_eq_true _ _).mpr ⟨heq', hspace'⟩)

/-- A command is cut inside a character of a trimmed text before any command is recognised. -/
def CutsCommand (trimmed : String) (commands : List (String × TraceqlCommand)) : Prop :=
  ∃ earlier entry later, commands = earlier ++ entry :: later ∧
    (∀ e ∈ earlier, ¬ IsCommand trimmed e) ∧ CutsAt trimmed entry

theorem splitTraceqlCommandAmong_eq_none_iff (trimmed : String)
    (commands : List (String × TraceqlCommand)) :
    splitTraceqlCommandAmong trimmed commands = none ↔ CutsCommand trimmed commands := by
  induction commands with
  | nil =>
    refine ⟨fun h => absurd h (Option.some_ne_none _), ?_⟩
    rintro ⟨earlier, entry, later, h, -⟩
    simp at h
  | cons entry rest ih =>
    rcases splitTraceqlCommandAmong_cons trimmed entry rest with
      ⟨hcuts, -, hnone⟩ | ⟨hcuts, hcommand, command, hsome⟩ | ⟨hcuts, hcommand, hrest⟩
    · exact ⟨fun _ => ⟨[], entry, rest, rfl, by simp, hcuts⟩, fun _ => hnone⟩
    · refine ⟨fun h => absurd (hsome.symm.trans h) (by simp), ?_⟩
      rintro ⟨earlier, entry', later, heq, hearlier, hcuts'⟩
      cases earlier with
      | nil =>
        obtain ⟨rfl, rfl⟩ := List.cons.inj heq
        exact absurd hcuts' hcuts
      | cons first earlier =>
        obtain ⟨rfl, -⟩ := List.cons.inj heq
        exact absurd hcommand (hearlier _ List.mem_cons_self)
    · rw [hrest, ih]
      constructor
      · rintro ⟨earlier, entry', later, rfl, hearlier, hcuts'⟩
        exact ⟨entry :: earlier, entry', later, rfl,
          List.forall_mem_cons.2 ⟨hcommand, hearlier⟩, hcuts'⟩
      · rintro ⟨earlier, entry', later, heq, hearlier, hcuts'⟩
        cases earlier with
        | nil =>
          obtain ⟨rfl, rfl⟩ := List.cons.inj heq
          exact absurd hcuts' hcuts
        | cons first earlier =>
          obtain ⟨rfl, rfl⟩ := List.cons.inj heq
          exact ⟨earlier, entry', later, rfl,
            fun e he => hearlier e (List.mem_cons_of_mem _ he), hcuts'⟩

/-- `split_traceql_command` panics when a command that it tries ends inside a character. -/
theorem splitTraceqlCommand_eq_none_iff (input : String) :
    splitTraceqlCommand input = none ↔ CutsCommand (Text.trim input) traceqlCommands :=
  splitTraceqlCommandAmong_eq_none_iff _ _

end TraceDB
