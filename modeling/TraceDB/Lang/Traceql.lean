import TraceDB.Lang.Sqlish

/-!
# TraceQL

`traceql_query_from_str` (`tracedb-query`): a text in the SQL-ish form is compiled as such, and any
other is split into statements, each of which sets one part of the query.

* `splitTraceqlStatements` : a loop over the characters that cuts at the line ends outside of
  strings and brackets.
* `TraceqlDraft.apply` : what a statement does to what is set so far.
-/

namespace TraceDB

/-! ### Statements -/

/-- `TraceQlStatement`. -/
structure TraceqlStatement where
  lineNumber : ℕ
  text : List Char
  deriving DecidableEq

/-- The state of the loop of `split_traceql_statements`, with the last character of the statement
and the last of the statements first. -/
structure StatementScan where
  statements : List TraceqlStatement
  statement : List Char
  lineNumber : ℕ
  statementLine : ℕ
  parenDepth : ℕ
  braceDepth : ℕ
  bracketDepth : ℕ
  inString : Bool
  escaped : Bool
  deriving DecidableEq

/-- The state before the first character. -/
def StatementScan.start : StatementScan where
  statements := []
  statement := []
  lineNumber := 1
  statementLine := 1
  parenDepth := 0
  braceDepth := 0
  bracketDepth := 0
  inString := false
  escaped := false

/-- `push_traceql_statement`. -/
def pushTraceqlStatement (statements : List TraceqlStatement) (raw : List Char) (lineNumber : ℕ) :
    List TraceqlStatement :=
  let text := Text.strip raw
  if text = [] ∨ text.head? = some '#' then statements else ⟨lineNumber, text⟩ :: statements

/-- No bracket is open. -/
def StatementScan.AtTop (s : StatementScan) : Prop :=
  s.parenDepth = 0 ∧ s.braceDepth = 0 ∧ s.bracketDepth = 0

instance (s : StatementScan) : Decidable s.AtTop :=
  inferInstanceAs (Decidable (_ ∧ _ ∧ _))

/-- A character of the loop of `split_traceql_statements`, with the character put into the
statement. -/
def StatementScan.step (s : StatementScan) (ch : Char) : Result StatementScan :=
  let taken := { s with statement := ch :: s.statement }
  if s.inString then
    let s' := { taken with lineNumber := if ch = '\n' then s.lineNumber + 1 else s.lineNumber }
    if s.escaped then .ok { s' with escaped := false }
    else if ch = '\\' then .ok { s' with escaped := true }
    else if ch = '"' then .ok { s' with inString := false }
    else .ok s'
  else if ch = '"' then .ok { taken with inString := true }
  else if ch = '(' then .ok { taken with parenDepth := s.parenDepth + 1 }
  else if ch = ')' then
    if s.parenDepth = 0 then .error (invalidTraceql s.lineNumber "unexpected closing parenthesis")
    else .ok { taken with parenDepth := s.parenDepth - 1 }
  else if ch = '\x7b' then .ok { taken with braceDepth := s.braceDepth + 1 }
  else if ch = '\x7d' then
    if s.braceDepth = 0 then .error (invalidTraceql s.lineNumber "unexpected closing brace")
    else .ok { taken with braceDepth := s.braceDepth - 1 }
  else if ch = '[' then .ok { taken with bracketDepth := s.bracketDepth + 1 }
  else if ch = ']' then
    if s.bracketDepth = 0 then .error (invalidTraceql s.lineNumber "unexpected closing bracket")
    else .ok { taken with bracketDepth := s.bracketDepth - 1 }
  else if ch = '\n' then
    if s.AtTop then
      .ok { s with
        statements := pushTraceqlStatement s.statements s.statement.reverse s.statementLine
        statement := []
        lineNumber := s.lineNumber + 1
        statementLine := s.lineNumber + 1 }
    else .ok { taken with lineNumber := s.lineNumber + 1 }
  else .ok taken

/-- The end of `split_traceql_statements`. -/
def StatementScan.finish (s : StatementScan) : Result (List TraceqlStatement) :=
  if s.inString then
    .error (invalidTraceql s.statementLine "unterminated string literal in statement")
  else if 0 < s.parenDepth then
    .error (invalidTraceql s.statementLine "unterminated opening parenthesis in statement")
  else if 0 < s.braceDepth then
    .error (invalidTraceql s.statementLine "unterminated opening brace in statement")
  else if 0 < s.bracketDepth then
    .error (invalidTraceql s.statementLine "unterminated opening bracket in statement")
  else .ok (pushTraceqlStatement s.statements s.statement.reverse s.statementLine).reverse

/-- `split_traceql_statements`. -/
def splitTraceqlStatements (input : List Char) : Result (List TraceqlStatement) := do
  (← input.foldlM StatementScan.step .start).finish

/-! ### Directives -/

/-- `split_traceql_directive`. -/
def splitTraceqlDirective (line : List Char) : List Char × List Char :=
  (line.takeWhile fun ch => !Text.isWhitespace ch,
    Text.strip (line.dropWhile fun ch => !Text.isWhitespace ch))

/-- The words that a statement can start with. -/
inductive TraceqlDirective where
  | fromTable
  | tenant
  | whereField
  | matchText
  | near
  | freshness
  | limit
  | explain
  deriving DecidableEq

/-- The directive that a word names, in any letter case. -/
def traceqlDirective (word : List Char) : Option TraceqlDirective :=
  match String.ofList (word.map Char.toUpper) with
  | "FROM" => some .fromTable
  | "TENANT" => some .tenant
  | "WHERE" => some .whereField
  | "MATCH" => some .matchText
  | "NEAR" => some .near
  | "FRESHNESS" => some .freshness
  | "LIMIT" => some .limit
  | "EXPLAIN" => some .explain
  | _ => none

/-- `parse_traceql_single_argument`. -/
def parseTraceqlSingleArgument (directive : String) (body : List Char) (lineNumber : ℕ) :
    Result String :=
  let value := Text.strip body
  if value = [] then .error (invalidTraceql lineNumber (directive ++ " requires one argument"))
  else if wordCount value ≠ 1 then
    .error (invalidTraceql lineNumber (directive ++ " accepts exactly one argument"))
  else .ok (String.ofList value)

/-- `set_traceql_once`: the target with the value. -/
def setTraceqlOnce (target : Option String) (directive value : String) (lineNumber : ℕ) :
    Result (Option String) :=
  if target.isSome then
    .error (invalidTraceql lineNumber (directive ++ " cannot be specified more than once"))
  else .ok (some value)

/-- `parse_traceql_where`. -/
def parseTraceqlWhere (body : List Char) (lineNumber : ℕ) : Result (String × List Char) :=
  match body.dropWhile (· ≠ '=') with
  | [] => .error (invalidTraceql lineNumber "WHERE must use field = value")
  | _ :: value =>
    let field := Text.strip (body.takeWhile (· ≠ '='))
    let value := Text.strip value
    if field = [] ∨ wordCount field ≠ 1 then
      .error (invalidTraceql lineNumber "WHERE field must be one identifier")
    else if value = [] then .error (invalidTraceql lineNumber "WHERE value cannot be empty")
    else .ok (String.ofList field, value)

/-- `parse_traceql_column_value`. -/
def parseTraceqlColumnValue (directive : String) (body : List Char) (lineNumber : ℕ) :
    Result (String × List Char) :=
  let body := Text.strip body
  let column := Text.strip (body.takeWhile fun ch => !Text.isWhitespace ch)
  let value := Text.strip (body.dropWhile fun ch => !Text.isWhitespace ch)
  if body.dropWhile (fun ch => !Text.isWhitespace ch) = [] ∨ column = [] ∨ value = [] then
    .error (invalidTraceql lineNumber (directive ++ " requires a column and value"))
  else .ok (String.ofList column, value)

/-! ### Queries -/

/-- What the statements have set so far: the variables of `traceql_query_from_str`. -/
structure TraceqlDraft (S : Type) where
  table : Option String
  tenantId : Option String
  textField : Option String
  text : Option String
  vectorField : Option String
  vector : Option (List S)
  scalarEq : Fields
  seenScalarEq : List String
  topK : ℕ
  topKSeen : Bool
  freshness : FreshnessMode
  freshnessSeen : Bool
  explain : Bool
  explainSeen : Bool

namespace TraceqlDraft

variable {S : Type}

/-- Nothing is set. -/
def empty : TraceqlDraft S where
  table := none
  tenantId := none
  textField := none
  text := none
  vectorField := none
  vector := none
  scalarEq := ∅
  seenScalarEq := []
  topK := 10
  topKSeen := false
  freshness := .strict
  freshnessSeen := false
  explain := false
  explainSeen := false

variable (F : CompilerFormat S)

/-- A directive of the loop of `traceql_query_from_str`, with the text after it. -/
def applyDirective (draft : TraceqlDraft S) (directive : TraceqlDirective) (body : List Char)
    (line : ℕ) : Result (TraceqlDraft S) :=
  match directive with
  | .fromTable => do
    let value ← parseTraceqlSingleArgument "FROM" body line
    let table ← setTraceqlOnce draft.table "FROM" value line
    .ok { draft with table := table }
  | .tenant => do
    let value ← parseTraceqlSingleArgument "TENANT" body line
    let tenantId ← setTraceqlOnce draft.tenantId "TENANT" value line
    .ok { draft with tenantId := tenantId }
  | .whereField => do
    let (field, value) ← parseTraceqlWhere body line
    if field ∈ draft.seenScalarEq then
      .error (invalidTraceql line
        ("WHERE field " ++ F.debugText field ++ " cannot be specified more than once"))
    else do
      let value ← parseTraceqlValue F value line
      .ok { draft with
        scalarEq := draft.scalarEq.insert field value
        seenScalarEq := field :: draft.seenScalarEq }
  | .matchText => do
    let (column, value) ← parseTraceqlColumnValue "MATCH" body line
    let textField ← setTraceqlOnce draft.textField "MATCH field" column line
    let text ← parseTraceqlStringValue F value line
    .ok { draft with textField := textField, text := some text }
  | .near => do
    let (column, value) ← parseTraceqlColumnValue "NEAR" body line
    let vectorField ← setTraceqlOnce draft.vectorField "NEAR field" column line
    match F.vectorFromStr (String.ofList (Text.strip value)) with
    | .error err =>
      .error (invalidTraceql line ("NEAR vector must be a JSON number array: " ++ err))
    | .ok [] => .error (invalidTraceql line "NEAR vector cannot be empty")
    | .ok vector => .ok { draft with vectorField := vectorField, vector := some vector }
  | .freshness =>
    if draft.freshnessSeen then
      .error (invalidTraceql line "FRESHNESS cannot be specified more than once")
    else do
      let value ← parseTraceqlSingleArgument "FRESHNESS" body line
      match freshnessOfWord value.toList with
      | none => .error (invalidTraceql line "FRESHNESS must be STRICT, LAZY, or ALLOW_DIRTY")
      | some freshness => .ok { draft with freshness := freshness, freshnessSeen := true }
  | .limit =>
    if draft.topKSeen then .error (invalidTraceql line "LIMIT cannot be specified more than once")
    else do
      let value ← parseTraceqlSingleArgument "LIMIT" body line
      match parseUsize value with
      | none =>
        .error (invalidTraceql line ("LIMIT must be a positive integer: " ++ parseUsizeError value))
      | some 0 => .error (invalidTraceql line "LIMIT must be greater than zero")
      | some topK => .ok { draft with topK := topK, topKSeen := true }
  | .explain =>
    if draft.explainSeen then .error
      (invalidTraceql line "EXPLAIN cannot be specified more than once")
    else if Text.strip body ≠ [] then
      .error (invalidTraceql line "EXPLAIN does not accept arguments")
    else .ok { draft with explain := true, explainSeen := true }

/-- A statement of the loop of `traceql_query_from_str`. -/
def apply (draft : TraceqlDraft S) (statement : TraceqlStatement) : Result (TraceqlDraft S) :=
  let (word, body) := splitTraceqlDirective statement.text
  match traceqlDirective word with
  | none =>
    .error (invalidTraceql statement.lineNumber
      ("unknown directive " ++ F.debugText (String.ofList word)))
  | some directive => draft.applyDirective F directive body statement.lineNumber

/-- The end of `traceql_query_from_str`. -/
def finish (draft : TraceqlDraft S) : Result (HybridQuery S) :=
  match draft.table with
  | none => .error (invalidTraceql 0 "FROM is required")
  | some table =>
    match draft.tenantId with
    | none => .error (invalidTraceql 0 "TENANT is required")
    | some tenantId =>
      .ok {
        table := table
        tenantId := tenantId
        cursor := none
        textField := draft.textField
        text := draft.text
        vectorField := draft.vectorField
        vector := draft.vector
        scalarEq := draft.scalarEq
        graphSeed := none
        temporalAsOf := none
        topK := draft.topK
        freshness := draft.freshness
        explain := draft.explain }

end TraceqlDraft

variable {S : Type} (F : CompilerFormat S)

/-- The line form of `traceql_query_from_str`. -/
def traceqlLinesFromStr (input : List Char) : Result (HybridQuery S) := do
  let statements ← splitTraceqlStatements input
  let draft ← statements.foldlM (TraceqlDraft.apply F) .empty
  draft.finish

/-- `traceql_query_from_str`. -/
def traceqlQueryFromStr (input : String) : Result (HybridQuery S) :=
  let input := Text.strip input.toList
  if startsWithSqlishSelect input then traceqlSqlishSelectFromStr F input
  else traceqlLinesFromStr F input

end TraceDB
