import TraceDB.Core.Text
import TraceDB.Query.Hybrid

/-!
# The query languages

`tracedb-query` compiles three kinds of text to a `HybridQuery`: the line form of TraceQL, its
SQL-ish form, and the bounded form of GraphQL.  This file has what they share: the libraries they
rest on, their errors, and a value as it stands in TraceQL.

Texts are lists of characters here.  The source cuts them at byte offsets, each of which it has from
a search for a character or a word.
-/

namespace TraceDB

/-- The libraries that the compilers of query texts rest on. -/
structure CompilerFormat (S : Type) where
  /-- `serde_json::from_str` at `Value`, with the text of the error. -/
  valueFromStr : String → Except String Value
  /-- `serde_json::from_str` at `Vec<f32>`. -/
  vectorFromStr : String → Except String (List S)
  /-- `as_f64() as f32` of a JSON number. -/
  numberAsF32 : Number → S
  /-- A text as `{:?}` writes it. -/
  debugText : String → String

/-! ### Errors -/

/-- `invalid_traceql`. -/
def invalidTraceql (lineNumber : ℕ) (message : String) : TraceDbError :=
  if lineNumber = 0 then .invalidCommand ("invalid TraceQL: " ++ message)
  else .invalidCommand ("invalid TraceQL at line " ++ toString lineNumber ++ ": " ++ message)

/-- `invalid_sqlish`. -/
def invalidSqlish (message : String) :
    TraceDbError := .invalidCommand ("invalid SQL-ish: " ++ message)

/-- `invalid_graphql_adapter`. -/
def invalidGraphqlAdapter (message : String) : TraceDbError :=
  .invalidCommand ("invalid GraphQL adapter: " ++ message)

/-! ### Values -/

/-- The number of words of a text: `split_whitespace().count()`. -/
def wordCount (text : List Char) : ℕ := (Text.splitWhitespace (String.ofList text)).length

/-- The freshness that a word names, in any letter case. -/
def freshnessOfWord (word : List Char) : Option FreshnessMode :=
  match String.ofList (word.map Char.toUpper) with
  | "STRICT" => some .strict
  | "LAZY" => some .lazy
  | "ALLOW_DIRTY" | "ALLOWDIRTY" | "ALLOW-DIRTY" => some .allowDirty
  | _ => none

section

variable {S : Type} (F : CompilerFormat S)

/-- `parse_traceql_value`. -/
def parseTraceqlValue (raw : List Char) (lineNumber : ℕ) : Result Value :=
  let value := Text.strip raw
  if value = [] then .error (invalidTraceql lineNumber "value cannot be empty")
  else
    match F.valueFromStr (String.ofList value) with
    | .ok parsed => .ok parsed
    | .error err =>
      if value.head? = some '"' ∨ value.getLast? = some '"' then
        .error (invalidTraceql lineNumber ("quoted value must be valid JSON: " ++ err))
      else .ok (.string (String.ofList value))

/-- `parse_traceql_string_value`. -/
def parseTraceqlStringValue (raw : List Char) (lineNumber : ℕ) : Result String := do
  match ← parseTraceqlValue F raw lineNumber with
  | .string value => .ok value
  | _ => .error (invalidTraceql lineNumber "MATCH value must be a string literal or bare string")

end

end TraceDB
