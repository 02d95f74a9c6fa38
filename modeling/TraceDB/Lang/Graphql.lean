import TraceDB.Data.Brackets
import TraceDB.Lang.Basic

/-!
# The bounded form of GraphQL

`graphql_query_from_str` (`tracedb-query`).  The comments are taken out of a text, then its
operation, the one root field and its arguments are found by their delimiters, and each argument is
split at its colon.  Every one of these loops keeps its own account of strings and brackets.
-/

namespace TraceDB

open Brackets

/-! ### Comments -/

/-- Where a loop over a text stands: outside of strings, inside one, and there perhaps after a
backslash, or inside a comment. -/
inductive GraphqlMode where
  | code
  | string (escaped : Bool)
  | comment
  deriving DecidableEq

/-- The mode after a character. -/
def GraphqlMode.next (mode : GraphqlMode) (ch : Char) : GraphqlMode :=
  match mode with
  | .comment => if ch = '\n' ∨ ch = '\r' then .code else .comment
  | .string true => .string false
  | .string false => if ch = '\\' then .string true else if ch = '"' then .code else .string false
  | .code => if ch = '"' then .string false else if ch = '#' then .comment else .code

/-- The loop of `strip_graphql_comments`.  A line end after a comment stays. -/
def stripGraphqlCommentsFrom : GraphqlMode → List Char → List Char
  | _, [] => []
  | mode, ch :: rest =>
    let next := mode.next ch
    if next = .comment then stripGraphqlCommentsFrom next rest
    else ch :: stripGraphqlCommentsFrom next rest

/-- `strip_graphql_comments`. -/
def stripGraphqlComments (input : List Char) : List Char := stripGraphqlCommentsFrom .code input

/-! ### Delimiters -/

/-- The loop of `matching_graphql_delimiter` after the first character, with the text read, last
character first: the text before the partner of the first character, and the text after it. -/
def matchingGraphqlDelimiterFrom (opening closing : Char) :
    ℕ → GraphqlMode → List Char → List Char → Option (List Char × List Char)
  | _, _, _, [] => none
  | depth, mode, inner, ch :: rest =>
    if mode = .code ∧ ch = opening then
      matchingGraphqlDelimiterFrom opening closing (depth + 1) mode (ch :: inner) rest
    else if mode = .code ∧ ch = closing then
      if depth = 0 then none
      else if depth = 1 then some (inner.reverse, rest)
      else matchingGraphqlDelimiterFrom opening closing (depth - 1) mode (ch :: inner) rest
    else matchingGraphqlDelimiterFrom opening closing depth (mode.next ch) (ch :: inner) rest

/-- `matching_graphql_delimiter` at the start of a text. -/
def matchingGraphqlDelimiter (input : List Char) (opening closing : Char) :
    Option (List Char × List Char) :=
  match input with
  | [] => none
  | ch :: rest => if ch = opening then matchingGraphqlDelimiterFrom opening closing 1 .code
      [] rest else none

/-- The error for a character that closes a bracket which is not open. -/
def unexpectedGraphqlClosing (ch : Char) : TraceDbError :=
  if ch = ')' then invalidGraphqlAdapter "unexpected closing parenthesis in argument value"
  else if ch = '\x7d' then invalidGraphqlAdapter "unexpected closing brace in argument value"
  else invalidGraphqlAdapter "unexpected closing bracket in argument value"

/-- The loop of `split_graphql_top_level`, with the part that it reads, last character first. -/
def splitGraphqlTopLevelFrom (separator : Char) :
    Mode → List Char → List Char → Result (List (List Char))
  | mode, part, [] =>
    if mode = .top then .ok [Text.strip part.reverse]
    else .error (invalidGraphqlAdapter "unterminated argument value")
  | mode, part, ch :: rest =>
    if mode = .top ∧ ch = separator then
      (Text.strip part.reverse :: ·) <$> splitGraphqlTopLevelFrom separator .top [] rest
    else
      match mode.next ch with
      | none => .error (unexpectedGraphqlClosing ch)
      | some mode => splitGraphqlTopLevelFrom separator mode (ch :: part) rest

/-- `split_graphql_top_level`. -/
def splitGraphqlTopLevel (input : List Char) (separator : Char) : Result (List (List Char)) :=
  splitGraphqlTopLevelFrom separator .top [] input

/-- The loop of `top_level_graphql_separator`, with the text before, last character first: the texts
before and after the separator.  A bracket that closes nothing is passed over. -/
def topLevelGraphqlSeparatorFrom (separator : Char) :
    Mode → List Char → List Char → Option (List Char × List Char)
  | _, _, [] => none
  | mode, before, ch :: rest =>
    if mode = .top ∧ ch = separator then some (before.reverse, rest)
    else topLevelGraphqlSeparatorFrom separator ((mode.next ch).getD mode) (ch :: before) rest

/-- `top_level_graphql_separator`, with the texts on both sides of it. -/
def topLevelGraphqlSeparator (input : List Char) (separator : Char) :
    Option (List Char × List Char) :=
  topLevelGraphqlSeparatorFrom separator .top [] input

/-! ### Names -/

/-- A character that starts a name. -/
def isGraphqlNameStart (ch : Char) : Bool := ch = '_' || ch.isAlpha

/-- A character of a name. -/
def isGraphqlNameChar (ch : Char) : Bool := ch = '_' || ch.isAlphanum

/-- `take_graphql_identifier`. -/
def takeGraphqlIdentifier (input : List Char) : Option (List Char × List Char) :=
  match Text.trimStart input with
  | [] => none
  | first :: rest =>
    if isGraphqlNameStart first then
      some (first :: rest.takeWhile isGraphqlNameChar, rest.dropWhile isGraphqlNameChar)
    else none

/-- A text is one identifier. -/
def isGraphqlIdentifier (input : List Char) : Bool :=
  (takeGraphqlIdentifier input).any fun (_, rest) => Text.strip rest = []

section

variable {S : Type} (F : CompilerFormat S)

/-- `split_graphql_name_value`. -/
def splitGraphqlNameValue (input : List Char) : Result (List Char × List Char) :=
  match topLevelGraphqlSeparator input ':' with
  | none => .error (invalidGraphqlAdapter "arguments must use name: value")
  | some (before, after) =>
    let name := Text.strip before
    let value := Text.strip after
    if ¬ isGraphqlIdentifier name then
      .error (invalidGraphqlAdapter "argument name must be an identifier")
    else if value = [] then
      .error (invalidGraphqlAdapter
        ("argument " ++ F.debugText (String.ofList name) ++ " value cannot be empty"))
    else .ok (name, value)

/-! ### The operation -/

/-- The text before the selection set of an operation. -/
def checkGraphqlOperation (start : List Char) : Result Unit :=
  let start := Text.strip start
  match Text.splitWhitespace (String.ofList start) with
  | [] => .ok ()
  | operation :: rest =>
    if operation ≠ "query" then
      .error (invalidGraphqlAdapter
        "only query operations are supported; mutations and subscriptions are not adapters")
    else if '(' ∈ start then
      .error (invalidGraphqlAdapter "operation variables are not supported by the bounded adapter")
    else
      match rest with
      | [] => .ok ()
      | operationName :: rest =>
        if ¬ isGraphqlIdentifier operationName.toList then
          .error (invalidGraphqlAdapter "operation name must be a GraphQL identifier")
        else if rest ≠ [] then
          .error (invalidGraphqlAdapter
            "operation directives are not supported by the bounded adapter")
        else .ok ()

/-- `graphql_operation_body`. -/
def graphqlOperationBody (input : List Char) : Result (List Char) :=
  let input := Text.strip input
  if input = [] then .error (invalidGraphqlAdapter "query cannot be empty")
  else
    match input.dropWhile (· ≠ '\x7b') with
    | [] => .error (invalidGraphqlAdapter "query selection set is required")
    | selection => do
      checkGraphqlOperation (input.takeWhile (· ≠ '\x7b'))
      match matchingGraphqlDelimiter selection '\x7b' '\x7d' with
      | none => .error (invalidGraphqlAdapter "query selection set is not closed")
      | some (body, rest) =>
        if Text.strip rest ≠ [] then
          .error (invalidGraphqlAdapter "unexpected content after query selection set")
        else .ok body

/-- The selection set of the root field, with which its text must end. -/
def checkGraphqlSelection (rest : List Char) : Result Unit :=
  if rest.head? ≠ some '\x7b' then
    .error (invalidGraphqlAdapter "root field selection set is required")
  else
    match matchingGraphqlDelimiter rest '\x7b' '\x7d' with
    | none => .error (invalidGraphqlAdapter "root field selection set is not closed")
    | some (selection, rest) =>
      let selection := Text.strip selection
      if selection = [] then
        .error (invalidGraphqlAdapter "root field selection set cannot be empty")
      else if (afterFirst "...".toList selection).isSome then
        .error (invalidGraphqlAdapter "fragments are not supported")
      else if Text.strip rest ≠ [] then
        .error (invalidGraphqlAdapter "exactly one root field is supported")
      else .ok ()

/-- `graphql_root_selection`: the root field and the text of its arguments. -/
def graphqlRootSelection (body : List Char) : Result (List Char × List Char) :=
  let body := Text.strip body
  if body = [] then .error (invalidGraphqlAdapter "one root field is required")
  else if "...".toList.isPrefixOf body then
    .error (invalidGraphqlAdapter "fragments are not supported")
  else
    match takeGraphqlIdentifier body with
    | none => .error (invalidGraphqlAdapter "root field is required")
    | some (table, rest) =>
      let rest := Text.trimStart rest
      if "__".toList.isPrefixOf table then
        .error (invalidGraphqlAdapter "introspection fields are not supported")
      else if rest.head? = some ':' then
        .error (invalidGraphqlAdapter "root aliases are not supported")
      else if rest.head? ≠ some '(' then
        .error (invalidGraphqlAdapter "root field arguments are required")
      else
        match matchingGraphqlDelimiter rest '(' ')' with
        | none => .error (invalidGraphqlAdapter "root field arguments are not closed")
        | some (arguments, rest) => do
          checkGraphqlSelection (Text.trimStart rest)
          .ok (table, arguments)

/-! ### Values -/

/-- `parse_graphql_value`. -/
def parseGraphqlValue (input : List Char) : Result Value :=
  let input := Text.strip input
  if input = [] then .error (invalidGraphqlAdapter "value cannot be empty")
  else if input.head? = some '\x7b' then
    .error (invalidGraphqlAdapter "nested objects are only supported for where/filter")
  else
    match F.valueFromStr (String.ofList input) with
    | .ok value => .ok value
    | .error error =>
      if input.head? = some '"' ∨ input.getLast? = some '"' then
        .error (invalidGraphqlAdapter ("quoted value must be valid JSON: " ++ error))
      else .ok (.string (String.ofList input))

/-- An entry of the loop of `parse_graphql_scalar_object`. -/
def insertGraphqlEntry (name : String) (output : Fields) (entry : List Char) : Result Fields :=
  let entry := Text.strip entry
  if entry = [] then .ok output
  else do
    let (field, value) ← splitGraphqlNameValue F entry
    let value ← parseGraphqlValue F value
    if (output[String.ofList field]?).isSome then
      .error (invalidGraphqlAdapter (name ++ " field " ++ F.debugText (String.ofList field) ++
        " cannot be specified more than once"))
    else .ok (output.insert (String.ofList field) value)

/-- `parse_graphql_scalar_object`. -/
def parseGraphqlScalarObject (input : List Char) (name : String) : Result Fields :=
  let input := Text.strip input
  if input.head? ≠ some '\x7b' then .error (invalidGraphqlAdapter (name ++ " must be an object"))
  else
    match matchingGraphqlDelimiter input '\x7b' '\x7d' with
    | none => .error (invalidGraphqlAdapter (name ++ " object is not closed"))
    | some (entries, rest) =>
      if Text.strip rest ≠ [] then
        .error (invalidGraphqlAdapter ("unexpected content after " ++ name ++ " object"))
      else do
        let entries ← splitGraphqlTopLevel entries ','
        entries.foldlM (insertGraphqlEntry F name) ∅

/-- `parse_graphql_string`. -/
def parseGraphqlString (input : List Char) (name : String) : Result String :=
  let input := Text.strip input
  let message := name ++ " must be a quoted non-empty string"
  if input.head? ≠ some '"' then .error (invalidGraphqlAdapter message)
  else
    match F.valueFromStr (String.ofList input) with
    | .error error =>
      .error (invalidGraphqlAdapter (name ++ " must be a valid JSON string: " ++ error))
    | .ok (.string value) => if value = "" then .error
        (invalidGraphqlAdapter message) else .ok value
    | .ok _ => .error (invalidGraphqlAdapter message)

/-- `value_as_f32_vec`. -/
def valueAsF32Vec (value : Value) : Option (List S) := do
  (← value.asArray).mapM fun
    | .number n => some (F.numberAsF32 n)
    | _ => none

/-- `parse_graphql_vector`. -/
def parseGraphqlVector (input : List Char) (name : String) : Result (List S) := do
  let value ← parseGraphqlValue F input
  match valueAsF32Vec F value with
  | none => .error (invalidGraphqlAdapter (name ++ " must be a numeric vector array"))
  | some [] => .error (invalidGraphqlAdapter (name ++ " vector cannot be empty"))
  | some vector => .ok vector

/-- `parse_graphql_limit`. -/
def parseGraphqlLimit (input : List Char) : Result ℕ := do
  let value ← parseGraphqlValue F input
  match value.asU64 with
  | none => .error (invalidGraphqlAdapter "limit must be a positive integer")
  | some 0 => .error (invalidGraphqlAdapter "limit must be greater than zero")
  | some limit => .ok limit

/-- `parse_graphql_bool`. -/
def parseGraphqlBool (input : List Char) (name : String) : Result Bool := do
  match ← parseGraphqlValue F input with
  | .bool value => .ok value
  | _ => .error (invalidGraphqlAdapter (name ++ " must be a boolean"))

/-- `parse_graphql_freshness`. -/
def parseGraphqlFreshness (input : List Char) : Result FreshnessMode := do
  let value ← parseGraphqlValue F input
  match value.asStr.bind fun raw => freshnessOfWord raw.toList with
  | none => .error (invalidGraphqlAdapter "freshness must be STRICT, LAZY, or ALLOW_DIRTY")
  | some freshness => .ok freshness

/-! ### Queries -/

/-- What the arguments have set so far: the variables of `graphql_query_from_str`. -/
structure GraphqlDraft (S : Type) where
  tenantId : Option String
  textField : Option String
  text : Option String
  vectorField : Option String
  vector : Option (List S)
  scalarEq : Fields
  topK : ℕ
  freshness : FreshnessMode
  explain : Bool
  seen : List String

/-- The name under which an argument is remembered. -/
def canonicalGraphqlName (name : String) : String :=
  match name with
  | "tenant_id" | "tenant" => "tenant_id"
  | "where" | "filter" => "where"
  | "match" | "text" => "match"
  | "near" | "vector" => "near"
  | other => other

namespace GraphqlDraft

/-- Nothing is set. -/
def empty : GraphqlDraft S where
  tenantId := none
  textField := none
  text := none
  vectorField := none
  vector := none
  scalarEq := ∅
  topK := 10
  freshness := .strict
  explain := false
  seen := []

/-- An entry of `where` goes into the conditions. -/
def insertScalar (scalarEq : Fields) (entry : String × Value) : Result Fields :=
  if (scalarEq[entry.1]?).isSome then
    .error (invalidGraphqlAdapter
      ("where field " ++ F.debugText entry.1 ++ " cannot be specified more than once"))
  else .ok (scalarEq.insert entry.1 entry.2)

/-- An argument by its name. -/
def applyNamed (draft : GraphqlDraft S) (name : String) (value : List Char) :
    Result (GraphqlDraft S) :=
  match name with
  | "tenant_id" | "tenant" => do
    let tenantId ← parseGraphqlString F value "tenant_id"
    .ok { draft with tenantId := some tenantId }
  | "where" | "filter" => do
    let predicates ← parseGraphqlScalarObject F value "where"
    let scalarEq ← predicates.toList.foldlM (insertScalar F) draft.scalarEq
    .ok { draft with scalarEq := scalarEq }
  | "match" | "text" => do
    let text ← parseGraphqlString F value name
    .ok { draft with text := some text }
  | "match_field" | "text_field" => do
    let textField ← parseGraphqlString F value name
    .ok { draft with textField := some textField }
  | "near" | "vector" => do
    let vector ← parseGraphqlVector F value name
    .ok { draft with vector := some vector }
  | "near_field" | "vector_field" => do
    let vectorField ← parseGraphqlString F value name
    .ok { draft with vectorField := some vectorField }
  | "limit" => do
    let topK ← parseGraphqlLimit F value
    .ok { draft with topK := topK }
  | "freshness" => do
    let freshness ← parseGraphqlFreshness F value
    .ok { draft with freshness := freshness }
  | "explain" => do
    let explain ← parseGraphqlBool F value "explain"
    .ok { draft with explain := explain }
  | _ => .error (invalidGraphqlAdapter ("unknown root argument " ++ F.debugText name))

/-- An argument of the loop of `graphql_query_from_str`. -/
def apply (draft : GraphqlDraft S) (argument : List Char) : Result (GraphqlDraft S) :=
  let argument := Text.strip argument
  if argument = [] then .ok draft
  else do
    let (name, value) ← splitGraphqlNameValue F argument
    let name := String.ofList name
    let canonicalName := canonicalGraphqlName name
    if canonicalName ∈ draft.seen then
      .error (invalidGraphqlAdapter
        ("argument " ++ F.debugText canonicalName ++ " cannot be specified more than once"))
    else applyNamed F { draft with seen := canonicalName :: draft.seen } name value

/-- The end of `graphql_query_from_str`. -/
def finish (draft : GraphqlDraft S) (table : String) : Result (HybridQuery S) :=
  match draft.tenantId with
  | none => .error (invalidGraphqlAdapter "tenant_id is required")
  | some tenantId =>
    .ok {
      table := table
      tenantId := tenantId
      cursor := none
      textField := draft.textField
      text := draft.text
      vectorField := draft.vectorField
      vector := draft.vector
      scalarEq := draft.scalarEq
      graphSeed := none
      temporalAsOf := none
      topK := draft.topK
      freshness := draft.freshness
      explain := draft.explain }

end GraphqlDraft

/-- `graphql_query_from_str`. -/
def graphqlQueryFromStr (input : String) : Result (HybridQuery S) := do
  let input := stripGraphqlComments input.toList
  let body ← graphqlOperationBody input
  let (table, arguments) ← graphqlRootSelection body
  let argumentPairs ← splitGraphqlTopLevel arguments ','
  let draft ← argumentPairs.foldlM (GraphqlDraft.apply F) .empty
  draft.finish (String.ofList table)

end

end TraceDB
