import TraceDB.Lang.Basic

/-!
# The SQL-ish form of TraceQL

`traceql_sqlish_select_from_str` (`tracedb-query`).  The text is normalised, searched for the words
that the adapter does not support, cut at `LIMIT` and at every `AND`, and each piece is a condition.
Three loops run over it, and each keeps its own account of what is quoted.
-/

namespace TraceDB

/-! ### White space -/

/-- Where a loop over the text stands: outside of quotes, inside double quotes, and there perhaps
after a backslash, or inside single quotes. -/
inductive SqlishMode where
  | plain
  | doubleQuote (escaped : Bool)
  | singleQuote
  deriving DecidableEq

/-- The mode after a character. -/
def SqlishMode.next (mode : SqlishMode) (ch : Char) : SqlishMode :=
  match mode with
  | .doubleQuote true => .doubleQuote false
  | .doubleQuote false =>
    if ch = '\\' then .doubleQuote true else if ch = '"' then .plain else .doubleQuote false
  | .singleQuote => if ch = '\'' then .plain else .singleQuote
  | .plain => if ch = '"' then .doubleQuote false else if ch = '\'' then .singleQuote else .plain

/-- The state of the loop of `normalize_sqlish_whitespace`, with the last character of the output
first. -/
structure WhitespaceScan where
  output : List Char
  mode : SqlishMode
  pendingSpace : Bool

/-- A character of the loop of `normalize_sqlish_whitespace`. -/
def WhitespaceScan.step (s : WhitespaceScan) (ch : Char) : WhitespaceScan :=
  if s.mode = .plain ∧ Text.isWhitespace ch = true then
    { s with pendingSpace := !s.output.isEmpty }
  else
    { output := ch :: (if s.pendingSpace then ' ' :: s.output else s.output)
      mode := s.mode.next ch
      pendingSpace := false }

/-- `normalize_sqlish_whitespace`. -/
def normalizeSqlishWhitespace (input : List Char) : List Char :=
  (input.foldl WhitespaceScan.step ⟨[], .plain, false⟩).output.reverse

/-! ### Words -/

/-- `is_sqlish_identifier_char`. -/
def isSqlishIdentifierChar (ch : Char) : Bool := ch.isAlphanum || ch = '_' || ch = '.'

/-- `strip_sqlish_keyword_prefix`. -/
def stripSqlishKeywordPrefix (input : List Char) (keyword : String) : Option (List Char) :=
  match splitBytes (Text.trimStart input) keyword.utf8ByteSize with
  | none => none
  | some (before, rest) =>
    if !eqIgnoreAsciiCase before keyword.toList then none
    else if rest.head?.all Text.isWhitespace then some (Text.trimStart rest)
    else none

/-- `starts_with_sqlish_select`. -/
def startsWithSqlishSelect (input : List Char) : Bool :=
  (stripSqlishKeywordPrefix input "SELECT").isSome ||
    ((stripSqlishKeywordPrefix input "EXPLAIN").bind fun rest =>
      stripSqlishKeywordPrefix rest "SELECT").isSome

/-- `take_sqlish_identifier`. -/
def takeSqlishIdentifier (input : List Char) : Option (List Char × List Char) :=
  let input := Text.trimStart input
  let word := input.takeWhile fun ch => !Text.isWhitespace ch
  if word = [] then none else some (word, input.dropWhile fun ch => !Text.isWhitespace ch)

/-- The keyword at the front of a text, with the text after it, if it ends there. -/
def keywordHere (keyword : String) (text : List Char) : Option (List Char) :=
  match splitBytes text keyword.utf8ByteSize with
  | none => none
  | some (candidate, after) =>
    if eqIgnoreAsciiCase candidate keyword.toList ∧
      !after.head?.any isSqlishIdentifierChar then some after
    else none

/-- The loop of `find_sqlish_keyword`, with the text before, last character first: the texts before
and after the first keyword that stands by itself outside of quotes. -/
def findSqlishKeywordFrom (keyword : String) :
    List Char → SqlishMode → List Char → Option (List Char × List Char)
  | _, _, [] => none
  | before, mode, ch :: rest =>
    let next := findSqlishKeywordFrom keyword (ch :: before) (mode.next ch) rest
    if mode = .plain ∧ mode.next ch = .plain ∧ !before.head?.any isSqlishIdentifierChar then
      match keywordHere keyword (ch :: rest) with
      | none => next
      | some after => some (before.reverse, after)
    else next

/-- `find_sqlish_keyword`, with the texts on both sides of it. -/
def findSqlishKeyword (input : List Char) (keyword : String) : Option (List Char × List Char) :=
  findSqlishKeywordFrom keyword [] .plain input

/-- The loop of `split_sqlish_and_conditions`, for as many rounds as there are characters at
most. -/
def sqlishConditions : ℕ → List Char → List (List Char)
  | 0, rest => [rest]
  | rounds + 1, rest =>
    match findSqlishKeyword rest "AND" with
    | none => [rest]
    | some (condition, after) => condition :: sqlishConditions rounds after

/-- `split_sqlish_and_conditions`. -/
def splitSqlishAndConditions (whereClause : List Char) : List (List Char) :=
  sqlishConditions whereClause.length whereClause

/-- The words that `reject_unsupported_sqlish_keywords` looks for. -/
def unsupportedSqlishKeywords : List String :=
  ["JOIN", "GROUP", "ORDER", "HAVING", "UNION", "OR", "INSERT", "UPDATE", "DELETE",
    "DROP", "CREATE", "ALTER"]

/-- `reject_unsupported_sqlish_keywords`. -/
def rejectUnsupportedSqlishKeywords (input : List Char) : Result Unit :=
  match unsupportedSqlishKeywords.find? fun keyword => (findSqlishKeyword input keyword).isSome with
  | none => .ok ()
  | some keyword => .error
      (invalidSqlish (keyword ++ " is not supported by the bounded SELECT adapter"))

/-! ### Conditions -/

section

variable {S : Type} (F : CompilerFormat S)

/-- `parse_sqlish_value`. -/
def parseSqlishValue (raw : List Char) : Result Value :=
  let value := Text.strip raw
  if value.head? = some '\'' ∨ value.getLast? = some '\'' then
    -- A single quote alone is both the first and the last character.
    if ¬ (value.head? = some '\'' ∧ value.getLast? = some '\'') ∨ value.length < 2 then
      .error (invalidSqlish "single-quoted value is not closed")
    else .ok (.string (Text.replace "''" "'" (String.ofList value.tail.dropLast)))
  else
    match parseTraceqlValue F value 1 with
    | .error (.invalidCommand message) =>
      .error (.invalidCommand (Text.replace "invalid TraceQL at line 1" "invalid SQL-ish" message))
    | result => result

/-- What the conditions have set so far. -/
structure SqlishDraft where
  tenantId : Option String
  scalarEq : Fields

/-- One condition of the loop of `traceql_sqlish_select_from_str`. -/
def SqlishDraft.apply (draft : SqlishDraft) (condition : List Char) : Result SqlishDraft :=
  let condition := Text.strip condition
  if condition = [] then .error (invalidSqlish "WHERE contains an empty condition")
  else
    match condition.dropWhile (· ≠ '=') with
    | [] => .error (invalidSqlish "WHERE conditions must use field = value")
    | _ :: rawValue =>
      let field := Text.strip (condition.takeWhile (· ≠ '='))
      if field = [] ∨ wordCount field ≠ 1 then
        .error (invalidSqlish "WHERE field must be one identifier")
      else do
        let value ← parseSqlishValue F (Text.strip rawValue)
        if eqIgnoreAsciiCase field "tenant_id".toList ||
          eqIgnoreAsciiCase field "tenant".toList then
          match value with
          | .string value =>
            if value = "" then .error (invalidSqlish "tenant_id must be a string value")
            else if draft.tenantId.isSome then
              .error (invalidSqlish "tenant_id cannot be specified more than once")
            else .ok { draft with tenantId := some value }
          | _ => .error (invalidSqlish "tenant_id must be a string value")
        else if (draft.scalarEq[String.ofList field]?).isSome then
          .error (invalidSqlish
            ("WHERE field " ++ F.debugText (String.ofList field) ++
              " cannot be specified more than once"))
        else .ok { draft with scalarEq := draft.scalarEq.insert (String.ofList field) value }

/-- The limit after the word `LIMIT`. -/
def parseSqlishLimit (limitClause : List Char) : Result ℕ :=
  let value := Text.strip limitClause
  if value = [] then .error (invalidSqlish "LIMIT requires a positive integer")
  else if wordCount value ≠ 1 then .error
    (invalidSqlish "LIMIT accepts exactly one positive integer")
  else
    match parseUsize (String.ofList value) with
    | none =>
      .error (invalidSqlish
        ("LIMIT must be a positive integer: " ++ parseUsizeError (String.ofList value)))
    | some 0 => .error (invalidSqlish "LIMIT must be greater than zero")
    | some parsed => .ok parsed

/-- The text of a query without its semicolons: the start of `traceql_sqlish_select_from_str`. -/
def sqlishText (input : List Char) : List Char :=
  Text.strip ((Text.strip (normalizeSqlishWhitespace input)).rdropWhile (· = ';'))

/-- An optional `EXPLAIN`, `SELECT * FROM`, the table and `WHERE`: whether the query is to be
explained, the table, and the text after `WHERE`. -/
def sqlishHead (query : List Char) : Result (Bool × List Char × List Char) := do
  let (explain, rest) := match stripSqlishKeywordPrefix query "EXPLAIN" with
    | some afterExplain => (true, afterExplain)
    | none => (false, query)
  match stripSqlishKeywordPrefix rest "SELECT" with
  | none => .error (invalidSqlish "SELECT is required")
  | some rest =>
    match Text.trimStart rest with
    | '*' :: afterStar =>
      match stripSqlishKeywordPrefix (Text.trimStart afterStar) "FROM" with
      | none => .error (invalidSqlish "FROM is required after SELECT *")
      | some rest =>
        match takeSqlishIdentifier rest with
        | none => .error (invalidSqlish "FROM requires a table")
        | some (table, afterTable) =>
          match stripSqlishKeywordPrefix afterTable "WHERE" with
          | none => .error (invalidSqlish "WHERE tenant_id = value is required")
          | some rest => .ok (explain, table, rest)
    | _ => .error (invalidSqlish "only SELECT * is supported")

/-- `traceql_sqlish_select_from_str`. -/
def traceqlSqlishSelectFromStr (input : List Char) : Result (HybridQuery S) := do
  let query := sqlishText input
  rejectUnsupportedSqlishKeywords query
  let (explain, table, rest) ← sqlishHead query
  let (whereClause, limitClause) := match findSqlishKeyword rest "LIMIT" with
    | some (whereClause, limitClause) => (whereClause, some limitClause)
    | none => (rest, none)
  let topK ← match limitClause with
    | some limitClause => parseSqlishLimit limitClause
    | none => .ok 10
  let draft ← (splitSqlishAndConditions whereClause).foldlM (SqlishDraft.apply F) ⟨none, ∅⟩
  match draft.tenantId with
  | none => .error (invalidSqlish "tenant_id is required")
  | some tenantId =>
    .ok {
      table := String.ofList table
      tenantId := tenantId
      cursor := none
      textField := none
      text := none
      vectorField := none
      vector := none
      scalarEq := draft.scalarEq
      graphSeed := none
      temporalAsOf := none
      topK := topK
      freshness := .strict
      explain := explain }

end

end TraceDB
