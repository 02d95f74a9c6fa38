import TraceDB.Core.Validation
import TraceDB.Lang.Graphql
import TraceDB.Lang.Reference

/-!
# The generated schema document

`graphql_schema_sdl_from_tables` describes the tables in the schema language of GraphQL: a root
field for every table, an input type for its filters and an object type for its rows.  The names of
the types are the table names with their underscores taken out, and the row type has fields of its
own beside the columns.

* `graphqlSchemaSdlFromTables` : the document, written line by line.
* `readSdl` : the types of a document with their fields and the arguments of these, read off its
  lines.
* `readSdl_document` : for validated schemas there is a document, with the types one expects.
* `sdl_wellFormed_iff` : which of these documents define a name twice.
-/

namespace TraceDB

/-! ### Names -/

/-- `validate_graphql_schema_identifier`. -/
def validateGraphqlSchemaIdentifier {S : Type} (F : CompilerFormat S) (name context : String) :
    Result Unit :=
  if isGraphqlIdentifier name.toList = true ∧ ¬ Text.startsWith name "__" = true then .ok ()
  else .error (invalidGraphqlAdapter
    (context ++ " " ++ F.debugText name ++ " cannot be exported as a GraphQL schema identifier"))

/-- The loop of `graphql_table_type_prefix`. -/
def graphqlTableTypePrefixFrom (capitalizeNext : Bool) : List Char → List Char
  | [] => []
  | ch :: chars =>
    if ch = '_' then graphqlTableTypePrefixFrom true chars
    else if capitalizeNext then ch.toUpper :: graphqlTableTypePrefixFrom false chars
    else ch :: graphqlTableTypePrefixFrom false chars

/-- `graphql_table_type_prefix`. -/
def graphqlTableTypePrefix (table : String) : List Char :=
  let output := graphqlTableTypePrefixFrom true table.toList
  if output = [] then "TraceDBTable".toList else output

/-! ### The document -/

/-- A line for a field without arguments. -/
def sdlField (name type : String) : List Char :=
  "  ".toList ++ (name.toList ++ (": ".toList ++ type.toList))

/-- The lines before the root fields. -/
def sdlHeader : List (List Char) :=
  ["scalar TraceDBJSON", "", "enum TraceDBFreshness \x7b", "  STRICT", "  LAZY",
    "  ALLOW_DIRTY", "\x7d", "", "type TraceDBScore \x7b", "  vector: Float", "  lexical: Float",
    "  relational: Float", "  freshness_penalty: Float", "  final_score: Float!", "\x7d", "",
    "type Query \x7b"].map String.toList

section

variable {S : Type} (F : CompilerFormat S)

/-- The root field of a table. -/
def sdlRootField (schema : TableSchema) : Result (List (List Char)) := do
  validateGraphqlSchemaIdentifier F schema.name "table name"
  let typePrefix := graphqlTableTypePrefix schema.name
  .ok (["  ".toList ++ (schema.name.toList ++ "(".toList),
    "    tenant_id: ID!".toList,
    "    tenant: ID".toList,
    "    where: ".toList ++ (typePrefix ++ "Where".toList),
    "    filter: ".toList ++ (typePrefix ++ "Where".toList),
    "    match: String".toList,
    "    match_field: String".toList,
    "    text: String".toList,
    "    text_field: String".toList,
    "    near: [Float!]".toList,
    "    near_field: String".toList,
    "    vector: [Float!]".toList,
    "    vector_field: String".toList,
    "    limit: Int".toList,
    "    freshness: TraceDBFreshness".toList,
    "    explain: Boolean".toList,
    "  ): [".toList ++ (typePrefix ++ "Row!]!".toList)])

/-- `push_graphql_row_field`, with the lines so far and the names in them. -/
def pushGraphqlRowField (state : List (List Char) × Std.ExtTreeSet String compare)
    (field : String × String) : Result (List (List Char) × Std.ExtTreeSet String compare) := do
  validateGraphqlSchemaIdentifier F field.1 "column"
  .ok (if field.1 ∈ state.2 then state
    else (state.1 ++ [sdlField field.1 field.2], state.2.insert field.1))

end

/-- The columns of a table with the types of their fields, in the order in which they are pushed. -/
def TableSchema.rowFields (schema : TableSchema) : List (String × String) :=
  (schema.primaryIdColumn, "ID") :: (schema.tenantIdColumn, "ID") ::
    (schema.scalarColumns.map (·, "TraceDBJSON") ++ (schema.textIndexedColumns.map (·, "String") ++
      schema.vectorColumns.map (·.name, "[Float!]")))

/-- The names of the columns to filter by, sorted. -/
def TableSchema.whereFields (schema : TableSchema) : List String :=
  (Std.ExtTreeSet.ofList schema.scalarColumns compare).toList

/-- An empty line and a type with the lines of its fields. -/
def sdlBlock (keyword : String) (name : List Char) (fields : List (List Char)) : List (List Char) :=
  [] :: (keyword.toList ++ (name ++ " \x7b".toList)) :: (fields ++ ["\x7d".toList])

/-- The two types of a table. -/
def sdlTableTypes {S : Type} (F : CompilerFormat S) (schema : TableSchema) :
    Result (List (List Char)) := do
  let typePrefix := graphqlTableTypePrefix schema.name
  schema.scalarColumns.forM fun field => validateGraphqlSchemaIdentifier F field "scalar column"
  let rows ← schema.rowFields.foldlM (pushGraphqlRowField F) ([], ∅)
  .ok (sdlBlock "input " (typePrefix ++ "Where".toList)
      (if schema.whereFields = [] then ["  _empty: Boolean".toList]
        else schema.whereFields.map fun field => sdlField field "TraceDBJSON") ++
    sdlBlock "type " (typePrefix ++ "Row".toList)
      (["  record_id: ID!", "  tenant_id: ID!", "  version_id: Int!", "  fields: TraceDBJSON!",
        "  score: TraceDBScore!"].map String.toList ++ rows.1))

/-- `graphql_schema_sdl_from_tables`. -/
def graphqlSchemaSdlFromTables {S : Type} (F : CompilerFormat S) (schemas : List TableSchema) :
    Result String := do
  let fields ← schemas.mapM (sdlRootField F)
  let types ← schemas.mapM (sdlTableTypes F)
  let lines := sdlHeader ++ ((if schemas = [] then ["  _empty: Boolean!".toList] else []) ++
    (fields.flatten ++ "\x7d".toList :: types.flatten))
  .ok (String.ofList (lines.flatMap (· ++ ['\n'])))

/-! ### Reading a document -/

/-- A type of a document: its name, and its fields with the names of their arguments. -/
structure SdlType where
  name : List Char
  fields : List (List Char × List (List Char))
  deriving DecidableEq

/-- The name at the head of a field or an argument. -/
def sdlName (line : List Char) : List Char := line.takeWhile fun ch => ch ≠ ':' && ch ≠ '('

/-- The name a line defines as a type. -/
def sdlTypeName (line : List Char) : Option (List Char) :=
  ["scalar ", "enum ", "type ", "input "].findSome? fun keyword =>
    if keyword.toList.isPrefixOf line then
      some ((line.drop keyword.toList.length).takeWhile fun ch => ch ≠ ' ')
    else none

/-- One line of a document, before what is read of the later ones: the arguments and the fields that
still have no owner, and the types. -/
def readSdlLine (line : List Char)
    (state : List (List Char) × List (List Char × List (List Char)) × List SdlType) :
    List (List Char) × List (List Char × List (List Char)) × List SdlType :=
  match line with
  | ' ' :: ' ' :: ' ' :: ' ' :: rest => (sdlName rest :: state.1, state.2)
  | ' ' :: ' ' :: ')' :: _ => state
  | ' ' :: ' ' :: rest => ([], (sdlName rest, state.1) :: state.2.1, state.2.2)
  | line =>
    match sdlTypeName line with
    | some name => ([], [], ⟨name, state.2.1⟩ :: state.2.2)
    | none => state

/-- The types of a document. -/
def readSdl (document : String) : List SdlType :=
  ((document.toList.splitOn '\n').foldr readSdlLine ([], [], [])).2.2

/-- No type is defined twice, no type has two fields of one name, and no field two arguments. -/
structure SdlWellFormed (types : List SdlType) : Prop where
  types_nodup : (types.map (·.name)).Nodup
  fields_nodup : ∀ type ∈ types, (type.fields.map Prod.fst).Nodup
  arguments_nodup : ∀ type ∈ types, ∀ field ∈ type.fields, field.2.Nodup

/-! ### Lines -/

/-- A text without the characters that end a name or a line. -/
def SdlPlain (text : List Char) : Prop := ∀ ch ∈ text, ch ∉ [' ', ')', '(', ':', '\n']

theorem IsSafeIdentifier.sdlPlain {name : String} (h : IsSafeIdentifier name) :
    SdlPlain name.toList := by
  obtain ⟨⟨first, chars, hname, hfirst, hchars⟩, -⟩ := h
  have hword : ∀ ch ∈ name.toList, ch = '_' ∨ isAsciiAlphanumeric ch = true := by
    rw [hname]
    refine List.forall_mem_cons.2 ⟨hfirst.imp_right fun halpha => ?_, hchars⟩
    rw [isAsciiAlphanumeric, halpha, Bool.true_or]
  intro ch hch hstop
  rcases hword ch hch with rfl | hch
  · revert hstop
    decide
  · simp only [List.mem_cons, List.not_mem_nil, or_false] at hstop
    rcases hstop with rfl | rfl | rfl | rfl | rfl <;> revert hch <;> decide

theorem toUpper_of_mem {ch : Char} (h : ch.toUpper ∈ [' ', ')', '(', ':', '\n']) :
    ch ∈ [' ', ')', '(', ':', '\n'] := by
  by_cases hlower : 'a'.val ≤ ch.val ∧ ch.val ≤ 'z'.val
  · have hhigh : ch.toNat ≤ 122 := UInt32.le_iff_toNat_le.1 hlower.2
    have hascii : ∀ n < 128, (Char.ofNat n).toUpper ∈ [' ', ')', '(', ':', '\n'] →
        Char.ofNat n ∈ [' ', ')', '(', ':', '\n'] := by decide
    have hchar := hascii ch.toNat (by omega)
    rw [Char.ofNat_toNat] at hchar
    exact hchar h
  · have hsame : ch.toUpper = ch := dif_neg hlower
    rwa [hsame] at h

theorem sdlPlain_tableType {table : String} (h : SdlPlain table.toList) :
    SdlPlain (graphqlTableTypePrefix table) := by
  have hfrom : ∀ (capitalizeNext : Bool) (chars : List Char), SdlPlain chars →
      SdlPlain (graphqlTableTypePrefixFrom capitalizeNext chars) := by
    intro capitalizeNext chars hchars
    induction chars generalizing capitalizeNext with
    | nil => exact hchars
    | cons ch chars ih =>
      obtain ⟨hch, hchars⟩ := List.forall_mem_cons.1 hchars
      rw [graphqlTableTypePrefixFrom]
      split_ifs
      · exact ih true hchars
      · exact List.forall_mem_cons.2 ⟨fun hupper => hch (toUpper_of_mem hupper), ih false hchars⟩
      · exact List.forall_mem_cons.2 ⟨hch, ih false hchars⟩
  rw [graphqlTableTypePrefix]
  split_ifs
  · unfold SdlPlain
    decide
  · exact hfrom true table.toList h

theorem sdlName_append {name rest : List Char} (h : SdlPlain name)
    (hrest : ∀ ch ∈ rest.head?, ch = ':' ∨ ch = '(') : sdlName (name ++ rest) = name := by
  rw [sdlName, List.takeWhile_append_of_pos]
  · cases rest with
    | nil => rw [List.takeWhile_nil, List.append_nil]
    | cons ch rest =>
      rw [List.takeWhile_cons_of_neg, List.append_nil]
      rcases hrest ch rfl with rfl | rfl <;> decide
  · intro ch hch
    have hplain := h ch hch
    simp only [List.mem_cons, List.not_mem_nil, or_false, not_or] at hplain
    simp [hplain]

/-- The line of a field, with the arguments after it. -/
theorem readSdlLine_field {name rest : List Char} (h : SdlPlain name) (hne : name ≠ [])
    (hrest : ∀ ch ∈ rest.head?, ch = ':' ∨ ch = '(') (arguments : List (List Char))
    (fields : List (List Char × List (List Char))) (types : List SdlType) :
    readSdlLine ("  ".toList ++ (name ++ rest)) (arguments, fields, types) =
      ([], (name, arguments) :: fields, types) := by
  have hname := sdlName_append h hrest
  obtain ⟨ch, chars, rfl⟩ := List.exists_cons_of_ne_nil hne
  have hplain := h ch List.mem_cons_self
  simp only [List.mem_cons, List.not_mem_nil, or_false, not_or] at hplain
  have hline : "  ".toList ++ ((ch :: chars) ++ rest) = ' ' :: ' ' :: ch :: (chars ++ rest) := rfl
  rw [List.cons_append] at hname
  rw [hline, readSdlLine.eq_def]
  split
  · next heq => exact absurd (List.cons.inj (List.cons.inj (List.cons.inj heq).2).2).1 hplain.1
  · next heq => exact absurd (List.cons.inj (List.cons.inj (List.cons.inj heq).2).2).1 hplain.2.1
  · next heq =>
    obtain rfl := (List.cons.inj (List.cons.inj heq).2).2
    rw [hname]
  · next hother => exact absurd rfl (hother (ch :: (chars ++ rest)))

theorem readSdlLine_sdlField {name : String} (h : SdlPlain name.toList) (hne : name.toList ≠ [])
    (type : String) (arguments : List (List Char)) (fields : List (List Char × List (List Char)))
    (types : List SdlType) :
    readSdlLine (sdlField name type) (arguments, fields, types) =
      ([], (name.toList, arguments) :: fields, types) :=
  readSdlLine_field h hne (by simp) arguments fields types

/-- Fields without arguments, one line each. -/
theorem foldr_sdlField {names : List (String × String)}
    (h : ∀ field ∈ names, SdlPlain field.1.toList ∧ field.1.toList ≠ [])
    (fields : List (List Char × List (List Char))) (types : List SdlType) :
    (names.map fun field => sdlField field.1 field.2).foldr readSdlLine ([], fields, types) =
      ([], (names.map fun field => (field.1.toList, [])) ++ fields, types) := by
  induction names with
  | nil => rfl
  | cons field names ih =>
    obtain ⟨⟨hplain, hne⟩, h⟩ := List.forall_mem_cons.1 h
    rw [List.map_cons, List.foldr_cons, ih h, readSdlLine_sdlField hplain hne]
    rfl

theorem takeWhile_ne_blank {name rest : List Char} (h : SdlPlain name) :
    (name ++ ' ' :: rest).takeWhile (fun ch => ch ≠ ' ') = name := by
  rw [List.takeWhile_append_of_pos, List.takeWhile_cons_of_neg (by decide), List.append_nil]
  intro ch hch
  have hplain := h ch hch
  simp only [List.mem_cons, List.not_mem_nil, or_false, not_or] at hplain
  simp [hplain]

/-- A type whose lines read as its fields. -/
theorem foldr_sdlBlock {keyword : String} (hkeyword : keyword = "input " ∨ keyword = "type ")
    {name : List Char} (h : SdlPlain name) {lines : List (List Char)}
    {fields : List (List Char × List (List Char))}
    (hlines : ∀ types, lines.foldr readSdlLine ([], [], types) = ([], fields, types))
    (later : List SdlType) :
    (sdlBlock keyword name lines).foldr readSdlLine ([], [], later) =
      ([], [], ⟨name, fields⟩ :: later) := by
  have hname : (name ++ ' ' :: ['\x7b']).takeWhile (fun ch => ch ≠ ' ') = name :=
    takeWhile_ne_blank h
  have hblank : ∀ state, readSdlLine [] state = state := fun _ => rfl
  have hclose : ["\x7d".toList].foldr readSdlLine ([], [], later) = ([], [], later) := rfl
  rw [sdlBlock, List.foldr_cons, List.foldr_cons, List.foldr_append, hclose, hlines, hblank]
  rcases hkeyword with rfl | rfl
  · change (match some ((name ++ ' ' :: ['\x7b']).takeWhile fun ch => ch ≠ ' ') with
      | some name => ([], [], SdlType.mk name fields :: later)
      | none => ([], fields, later)) = _
    rw [hname]
  · change (match some ((name ++ ' ' :: ['\x7b']).takeWhile fun ch => ch ≠ ' ') with
      | some name => ([], [], SdlType.mk name fields :: later)
      | none => ([], fields, later)) = _
    rw [hname]

theorem oneLine_sdlBlock {keyword : String} (hkeyword : keyword = "input " ∨ keyword = "type ")
    {name : List Char} (h : SdlPlain name) {lines : List (List Char)}
    (hlines : ∀ line ∈ lines, '\n' ∉ line) :
    ∀ line ∈ sdlBlock keyword name lines, '\n' ∉ line := by
  have hname : '\n' ∉ name := fun hmem => h _ hmem (by decide)
  refine List.forall_mem_cons.2 ⟨List.not_mem_nil, List.forall_mem_cons.2 ⟨?_, ?_⟩⟩
  · rcases hkeyword with rfl | rfl <;> simp [hname]
  · exact List.forall_mem_append.2 ⟨hlines, List.forall_mem_singleton.2 (by decide)⟩

/-! ### The types of the document -/

/-- The arguments of a root field. -/
def sdlArguments : List (List Char) :=
  ["tenant_id", "tenant", "where", "filter", "match", "match_field", "text", "text_field",
    "near", "near_field", "vector", "vector_field", "limit", "freshness",
    "explain"].map String.toList

/-- The fields of a row beside the columns. -/
def sdlRowNames : List String := ["record_id", "tenant_id", "version_id", "fields", "score"]

/-- The types before the root fields. -/
def sdlFixedTypes : List SdlType :=
  [⟨"TraceDBJSON".toList, []⟩,
    ⟨"TraceDBFreshness".toList, ["STRICT", "LAZY", "ALLOW_DIRTY"].map (·.toList, [])⟩,
    ⟨"TraceDBScore".toList,
      ["vector", "lexical", "relational", "freshness_penalty", "final_score"].map (·.toList, [])⟩]

/-- The root fields. -/
def sdlRootFields (schemas : List TableSchema) : List (List Char × List (List Char)) :=
  if schemas = [] then [("_empty".toList, [])]
  else schemas.map fun schema => (schema.name.toList, sdlArguments)

/-- The types of a table. -/
def TableSchema.sdlTypes (schema : TableSchema) : List SdlType :=
  [⟨graphqlTableTypePrefix schema.name ++ "Where".toList,
      if schema.whereFields = [] then [("_empty".toList, [])] else schema.whereFields.map
        (·.toList, [])⟩,
    ⟨graphqlTableTypePrefix schema.name ++ "Row".toList,
      sdlRowNames.map (·.toList, []) ++ schema.columnNames.map (·.toList, [])⟩]

/-- The types of the document of tables. -/
def sdlTypes (schemas : List TableSchema) : List SdlType :=
  sdlFixedTypes ++ ⟨"Query".toList, sdlRootFields schemas⟩ :: schemas.flatMap TableSchema.sdlTypes

theorem foldr_sdlHeader (fields : List (List Char × List (List Char))) (types : List SdlType) :
    sdlHeader.foldr readSdlLine ([], fields, types) =
      ([], [], sdlFixedTypes ++ ⟨"Query".toList, fields⟩ :: types) := rfl

/-! ### Validated tables -/

theorem isAlpha_of_isAsciiAlphabetic {ch : Char} (h : isAsciiAlphabetic ch = true) :
    ch.isAlpha = true := by
  simp only [isAsciiAlphabetic, Bool.or_eq_true, Bool.and_eq_true, decide_eq_true_eq,
    Char.le_def] at h
  change (decide (ch.val ≥ 'A'.val ∧ ch.val ≤ 'Z'.val) || ch.val ≥ 'a'.val && ch.val ≤ 'z'.val) =
    true
  simp only [Bool.or_eq_true, Bool.and_eq_true, decide_eq_true_eq]
  exact h.symm

theorem isGraphqlNameChar_of_isAsciiAlphanumeric {ch : Char}
    (h : ch = '_' ∨ isAsciiAlphanumeric ch = true) :
    isGraphqlNameChar ch = true := by
  rw [isGraphqlNameChar, Bool.or_eq_true, decide_eq_true_eq]
  refine h.imp_right fun h => ?_
  rw [Char.isAlphanum, Bool.or_eq_true]
  rw [isAsciiAlphanumeric, Bool.or_eq_true] at h
  refine h.imp isAlpha_of_isAsciiAlphabetic fun hdigit => ?_
  simpa [Char.isDigit, Char.le_def] using hdigit

variable {S : Type} {F : CompilerFormat S}

theorem validateGraphqlSchemaIdentifier_ok {name : String} (h : IsSafeIdentifier name)
    (context : String) :
    validateGraphqlSchemaIdentifier F name context = .ok () := by
  have hidentifier : isGraphqlIdentifier name.toList = true := by
    obtain ⟨⟨first, chars, hname, hfirst, hchars⟩, -⟩ := h
    have hstart : isGraphqlNameStart first = true := by
      rw [isGraphqlNameStart, Bool.or_eq_true, decide_eq_true_eq]
      exact hfirst.imp_right isAlpha_of_isAsciiAlphabetic
    have hrest : chars.dropWhile isGraphqlNameChar = [] :=
      List.dropWhile_eq_nil_iff.2 fun ch hch => isGraphqlNameChar_of_isAsciiAlphanumeric
        (hchars ch hch)
    have hblank : Text.isWhitespace first = false := by
      rcases hfirst with rfl | halpha
      · decide
      · refine Text.isWhitespace_of_visible (isAsciiAlphanumeric_visible ?_)
        rw [isAsciiAlphanumeric, halpha, Bool.true_or]
    have htrim : Text.trimStart (first :: chars) = first :: chars :=
      List.dropWhile_cons_of_neg (by rw [hblank]; exact Bool.false_ne_true)
    rw [isGraphqlIdentifier, takeGraphqlIdentifier, hname, htrim]
    dsimp only
    rw [if_pos hstart, hrest]
    rfl
  have hintrospection : ¬ Text.startsWith name "__" = true := by
    rw [Text.startsWith_iff]
    exact h.2
  rw [validateGraphqlSchemaIdentifier, if_pos ⟨hidentifier, hintrospection⟩]

theorem SdlPlain.oneLine {text : List Char} (h : SdlPlain text) : '\n' ∉ text :=
  fun hmem => h _ hmem (by decide)

theorem IsSafeIdentifier.toList_ne_nil {name : String} (h : IsSafeIdentifier name) :
    name.toList ≠ [] := by
  obtain ⟨⟨first, chars, hname, -⟩, -⟩ := h
  rw [hname]
  exact List.cons_ne_nil _ _

variable {schema : TableSchema}

/-- Lines that read as one field with arguments, whatever is read after them. -/
def ReadsAsField (lines : List (List Char)) (field : List Char × List (List Char)) : Prop :=
  (∀ fields types, lines.foldr readSdlLine ([], fields, types) = ([], field :: fields, types)) ∧
    ∀ line ∈ lines, '\n' ∉ line

/-- Lines that read as types, whatever types are read after them. -/
def ReadsAsTypes (lines : List (List Char)) (types : List SdlType) : Prop :=
  (∀ later, lines.foldr readSdlLine ([], [], later) = ([], [], types ++ later)) ∧
    ∀ line ∈ lines, '\n' ∉ line

theorem exists_sdlRootField (h : schema.Valid) :
    ∃ lines, sdlRootField F schema = .ok lines ∧
    ReadsAsField lines (schema.name.toList, sdlArguments) := by
  have hname := h.safeName.sdlPlain
  have hpre := (sdlPlain_tableType hname).oneLine
  rw [sdlRootField, validateGraphqlSchemaIdentifier_ok h.safeName]
  refine ⟨_, rfl, fun fields types => ?_, ?_⟩
  · -- The lines of the arguments read as their names.
    rw [List.foldr_cons]
    exact readSdlLine_field hname h.safeName.toList_ne_nil (by simp) sdlArguments fields types
  · have hname := hname.oneLine
    simp [hname, hpre]

/-- The columns of a row: all of them are pushed, as they have different names. -/
theorem foldlM_pushGraphqlRowField {names : List (String × String)}
    (hsafe : ∀ field ∈ names, IsSafeIdentifier field.1) (hnodup : (names.map Prod.fst).Nodup)
    (lines : List (List Char)) {seen : Std.ExtTreeSet String compare}
    (hseen : ∀ field ∈ names, field.1 ∉ seen) :
    ∃ seen', names.foldlM (pushGraphqlRowField F) (lines, seen) =
      .ok (lines ++ names.map fun field => sdlField field.1 field.2, seen') := by
  induction names generalizing lines seen with
  | nil => exact ⟨seen, by rw [List.map_nil, List.append_nil]; rfl⟩
  | cons field names ih =>
    obtain ⟨hfirst, hsafe⟩ := List.forall_mem_cons.1 hsafe
    obtain ⟨hnew, hseen⟩ := List.forall_mem_cons.1 hseen
    rw [List.map_cons, List.nodup_cons] at hnodup
    have hpush : pushGraphqlRowField F (lines, seen) field =
        .ok (lines ++ [sdlField field.1 field.2], seen.insert field.1) := by
      rw [pushGraphqlRowField, validateGraphqlSchemaIdentifier_ok hfirst, if_neg hnew]
      rfl
    have hother : ∀ other ∈ names, other.1 ∉ seen.insert field.1 := by
      intro other hother
      rw [Std.ExtTreeSet.mem_insert, not_or]
      refine ⟨fun heq => hnodup.1 ?_, hseen other hother⟩
      rw [compare_eq_iff_eq.1 heq]
      exact List.mem_map_of_mem hother
    obtain ⟨seen', hrest⟩ := ih hsafe hnodup.2 (lines ++ [sdlField field.1 field.2]) hother
    refine ⟨seen', ?_⟩
    rw [List.foldlM_cons, hpush, Except.ok_bind, hrest, List.append_assoc, List.map_cons]
    rfl

theorem map_fst_rowFields (schema : TableSchema) :
    schema.rowFields.map Prod.fst = schema.columnNames := by
  simp [TableSchema.rowFields, TableSchema.columnNames, Function.comp_def]

theorem mem_whereFields {column : String} :
    column ∈ schema.whereFields ↔ column ∈ schema.scalarColumns := by
  rw [TableSchema.whereFields, Std.ExtTreeSet.mem_toList, Std.ExtTreeSet.mem_ofList]
  simp

/-- The lines of fields without arguments. -/
theorem oneLine_sdlField {names : List (String × String)}
    (h : ∀ field ∈ names, SdlPlain field.1.toList ∧ '\n' ∉ field.2.toList) :
    ∀ line ∈ names.map fun field => sdlField field.1 field.2, '\n' ∉ line := by
  intro line hline
  obtain ⟨field, hfield, rfl⟩ := List.mem_map.1 hline
  have hname := (h field hfield).1.oneLine
  have htype := (h field hfield).2
  simp [sdlField, hname, htype]

theorem exists_sdlTableTypes (h : schema.Valid) :
    ∃ lines, sdlTableTypes F schema = .ok lines ∧ ReadsAsTypes lines schema.sdlTypes := by
  have hpre := sdlPlain_tableType h.safeName.sdlPlain
  have hplain : ∀ {name}, IsSafeIdentifier name → SdlPlain name.toList ∧ name.toList ≠ [] :=
    fun hname => ⟨hname.sdlPlain, hname.toList_ne_nil⟩
  have hwhere : ∀ field ∈ schema.whereFields.map fun field => (field, "TraceDBJSON"),
      IsSafeIdentifier field.1 := by
    intro field hfield
    obtain ⟨column, hcolumn, rfl⟩ := List.mem_map.1 hfield
    exact h.safeColumns column (by simp [TableSchema.columnNames, mem_whereFields.1 hcolumn])
  have hrow : ∀ field ∈ schema.rowFields, IsSafeIdentifier field.1 := by
    intro field hfield
    exact h.safeColumns field.1 (map_fst_rowFields schema ▸ List.mem_map_of_mem hfield)
  have hscalars : schema.scalarColumns.forM (fun field =>
      validateGraphqlSchemaIdentifier F field "scalar column") = .ok ⟨⟩ :=
    Except.forM_eq_ok_iff.2 fun column hcolumn =>
      validateGraphqlSchemaIdentifier_ok
        (h.safeColumns column (by simp [TableSchema.columnNames, hcolumn])) _
  have hnodup : (schema.rowFields.map Prod.fst).Nodup :=
    (map_fst_rowFields schema).symm ▸ h.distinct
  have hnone : ∀ field ∈ schema.rowFields, field.1 ∉ (∅ : Std.ExtTreeSet String compare) :=
    fun field _ => Std.ExtTreeSet.not_mem_empty
  obtain ⟨seen, hrows⟩ := foldlM_pushGraphqlRowField (F := F) hrow hnodup [] hnone
  rw [sdlTableTypes, hscalars, Except.ok_bind, hrows, Except.ok_bind]
  have hwhereLines : ∀ types, (if schema.whereFields = [] then ["  _empty: Boolean".toList]
      else schema.whereFields.map fun field => sdlField field "TraceDBJSON").foldr readSdlLine ([],
        [], types) =
        ([], if schema.whereFields = [] then [("_empty".toList, [])] else schema.whereFields.map
          (·.toList, []), types) := by
    intro types
    split_ifs
    · rfl
    · have hread := foldr_sdlField (fun field hfield => hplain (hwhere field hfield)) [] types
      simpa [List.map_map, Function.comp_def] using hread
  have hrowLines : ∀ types, (["  record_id: ID!", "  tenant_id: ID!", "  version_id: Int!",
      "  fields: TraceDBJSON!", "  score: TraceDBScore!"].map String.toList ++
        (schema.rowFields.map fun field => sdlField field.1 field.2)).foldr readSdlLine ([], [],
        types) =
      ([], sdlRowNames.map (·.toList, []) ++ schema.columnNames.map (·.toList, []), types) := by
    intro types
    rw [List.foldr_append, foldr_sdlField fun field hfield => hplain (hrow field hfield),
      ← map_fst_rowFields, List.map_map]
    rw [List.append_nil]
    rfl
  have hinput : SdlPlain (graphqlTableTypePrefix schema.name ++ "Where".toList) :=
    List.forall_mem_append.2 ⟨hpre, by decide⟩
  have hobject : SdlPlain (graphqlTableTypePrefix schema.name ++ "Row".toList) :=
    List.forall_mem_append.2 ⟨hpre, by decide⟩
  refine ⟨_, rfl, fun later => ?_, List.forall_mem_append.2 ⟨?_, ?_⟩⟩
  · rw [List.nil_append, List.foldr_append, foldr_sdlBlock (.inr rfl) hobject hrowLines,
      foldr_sdlBlock (.inl rfl) hinput hwhereLines]
    rfl
  · refine oneLine_sdlBlock (.inl rfl) hinput ?_
    split_ifs
    · decide
    · have htypes : ∀ field ∈ schema.whereFields.map fun field => (field, "TraceDBJSON"),
          SdlPlain field.1.toList ∧ '\n' ∉ field.2.toList := by
        intro field hfield
        refine ⟨(hplain (hwhere field hfield)).1, ?_⟩
        obtain ⟨column, -, rfl⟩ := List.mem_map.1 hfield
        exact (by decide : '\n' ∉ "TraceDBJSON".toList)
      have hlines := oneLine_sdlField htypes
      simpa [List.map_map, Function.comp_def] using hlines
  · refine oneLine_sdlBlock (.inr rfl) hobject (List.forall_mem_append.2 ⟨by decide, ?_⟩)
    refine oneLine_sdlField fun field hfield => ⟨(hrow field hfield).sdlPlain, ?_⟩
    have htype : field.2 ∈ ["ID", "TraceDBJSON", "String", "[Float!]"] := by
      simp only [TableSchema.rowFields, List.mem_cons, List.mem_append, List.mem_map] at hfield
      rcases hfield with rfl | rfl | ⟨_, -, rfl⟩ | ⟨_, -, rfl⟩ | ⟨_, -, rfl⟩ <;> simp
    have hall : ∀ type ∈ ["ID", "TraceDBJSON", "String", "[Float!]"],
        '\n' ∉ type.toList := by decide
    exact hall field.2 htype

/-! ### The document of validated tables -/

theorem foldr_rootFields {schemas : List TableSchema} {linesOf : List (List (List Char))}
    (h : List.Forall₂ (fun schema lines => ReadsAsField lines (schema.name.toList, sdlArguments))
      schemas linesOf)
    (types : List SdlType) :
    linesOf.flatten.foldr readSdlLine ([], [], types) =
      ([], schemas.map fun schema => (schema.name.toList, sdlArguments), types) := by
  induction h with
  | nil => rfl
  | cons hlines _ ih => rw [List.flatten_cons, List.foldr_append, ih, hlines.1, List.map_cons]

theorem foldr_tableTypes {schemas : List TableSchema} {linesOf : List (List (List Char))}
    (h : List.Forall₂ (fun schema lines => ReadsAsTypes lines schema.sdlTypes) schemas linesOf) :
    linesOf.flatten.foldr readSdlLine ([], [], []) =
      ([], [], schemas.flatMap TableSchema.sdlTypes) := by
  induction h with
  | nil => rfl
  | cons hlines _ ih => rw [List.flatten_cons, List.foldr_append, ih, hlines.1, List.flatMap_cons]

theorem oneLine_flatten {α : Type} {p : α → List (List Char) → Prop} {xs : List α}
    {linesOf : List (List (List Char))} (h : List.Forall₂ p xs linesOf)
    (hp : ∀ x lines, p x lines → ∀ line ∈ lines, '\n' ∉ line) :
    ∀ line ∈ linesOf.flatten, '\n' ∉ line := by
  induction h with
  | nil => simp
  | cons hlines _ ih =>
    rw [List.flatten_cons]
    exact List.forall_mem_append.2 ⟨hp _ _ hlines, ih⟩

theorem splitOn_lines {lines : List (List Char)} (h : ∀ line ∈ lines, '\n' ∉ line) :
    (lines.flatMap (· ++ ['\n'])).splitOn '\n' = lines ++ [[]] := by
  induction lines with
  | nil => rfl
  | cons line lines ih =>
    obtain ⟨hline, h⟩ := List.forall_mem_cons.1 h
    rw [List.flatMap_cons, List.append_assoc, List.singleton_append, List.splitOn,
      List.splitOnP_append_cons_of_forall_mem _ '\n' rfl, ← List.splitOn, ih h]
    · rfl
    · intro ch hch
      rw [beq_eq_false_iff_ne]
      rintro rfl
      exact hline hch

/-- **The document of validated tables** defines the types one expects. -/
theorem readSdl_document {schemas : List TableSchema} (h : ∀ schema ∈ schemas, schema.Valid) :
    ∃ document, graphqlSchemaSdlFromTables F schemas = .ok document ∧
    readSdl document = sdlTypes schemas := by
  obtain ⟨fields, hfields, hroots⟩ :=
    Except.exists_mapM_ok fun schema hschema => exists_sdlRootField (F := F) (h schema hschema)
  obtain ⟨types, htypes, htables⟩ :=
    Except.exists_mapM_ok fun schema hschema => exists_sdlTableTypes (F := F) (h schema hschema)
  rw [graphqlSchemaSdlFromTables, hfields, Except.ok_bind, htypes, Except.ok_bind]
  refine ⟨_, rfl, ?_⟩
  have hlines : ∀ line ∈ sdlHeader ++ ((if schemas = []
      then ["  _empty: Boolean!".toList] else []) ++
      (fields.flatten ++ "\x7d".toList :: types.flatten)), '\n' ∉ line := by
    refine List.forall_mem_append.2
      ⟨by decide, List.forall_mem_append.2 ⟨?_, List.forall_mem_append.2 ⟨?_, ?_⟩⟩⟩
    · split_ifs <;> decide
    · exact oneLine_flatten hroots fun _ _ hreads => hreads.2
    · exact List.forall_mem_cons.2 ⟨by decide, oneLine_flatten htables fun _ _ hreads => hreads.2⟩
  have hclose : ∀ types, readSdlLine "\x7d".toList ([], [], types) = ([], [], types) := fun _ => rfl
  have hlast : [[]].foldr readSdlLine ([], [], []) = ([], [], []) := rfl
  rw [readSdl, String.toList_ofList, splitOn_lines hlines, List.foldr_append, hlast,
    List.foldr_append, List.foldr_append, List.foldr_append, List.foldr_cons,
    foldr_tableTypes htables, hclose, foldr_rootFields hroots]
  rw [sdlTypes, sdlRootFields]
  split_ifs with hnone
  · subst hnone
    exact congrArg (·.2.2) (foldr_sdlHeader _ _)
  · exact congrArg (·.2.2) (foldr_sdlHeader _ _)

/-! ### Names that are defined twice -/

/-- The names of the types that every document has. -/
def sdlFixedNames : List (List Char) :=
  ["TraceDBJSON", "TraceDBFreshness", "TraceDBScore", "Query"].map String.toList

theorem map_name_sdlTypes (schemas : List TableSchema) :
    (sdlTypes schemas).map (·.name) = sdlFixedNames ++ (schemas.map fun schema =>
      graphqlTableTypePrefix schema.name).flatMap fun pre => [pre ++ "Where".toList,
      pre ++ "Row".toList] := by
  have htables : (schemas.flatMap TableSchema.sdlTypes).map (·.name) = (schemas.map fun schema =>
      graphqlTableTypePrefix schema.name).flatMap fun pre => [pre ++ "Where".toList,
        pre ++ "Row".toList] := by
    rw [List.map_flatMap, List.flatMap_map]
    rfl
  rw [sdlTypes, List.map_append, List.map_cons, htables]
  rfl

theorem where_ne_row (pre other : List Char) : pre ++ "Where".toList ≠ other ++ "Row".toList := by
  intro h
  have hlast := congrArg List.getLast? h
  simp at hlast

/-- **Types are defined once** exactly when the type prefixes of the tables differ. -/
theorem types_nodup_iff (schemas : List TableSchema) :
    ((sdlTypes schemas).map (·.name)).Nodup ↔
      (schemas.map fun schema => graphqlTableTypePrefix schema.name).Nodup := by
  rw [map_name_sdlTypes]
  generalize schemas.map (fun schema => graphqlTableTypePrefix schema.name) = prefixes
  have hfixed : ∀ a ∈ sdlFixedNames, ∀ b ∈ prefixes.flatMap fun pre =>
      [pre ++ "Where".toList, pre ++ "Row".toList], a ≠ b := by
    -- No fixed name ends like the name of a table's type.
    have hends : ∀ a ∈ sdlFixedNames, ¬ "Where".toList <:+ a ∧ ¬ "Row".toList <:+ a := by decide
    rintro a ha b hb rfl
    obtain ⟨pre, -, hmem⟩ := List.mem_flatMap.1 hb
    simp only [List.mem_cons, List.not_mem_nil, or_false] at hmem
    rcases hmem with rfl | rfl
    · exact (hends _ ha).1 (List.suffix_append _ _)
    · exact (hends _ ha).2 (List.suffix_append _ _)
  have hapart : ∀ pre other : List Char, List.Disjoint [pre ++ "Where".toList, pre ++ "Row".toList]
      [other ++ "Where".toList, other ++ "Row".toList] ↔ pre ≠ other := by
    intro pre other
    have hwhere := where_ne_row pre other
    have hrow := where_ne_row other pre
    constructor
    · rintro hdisjoint rfl
      exact hdisjoint List.mem_cons_self List.mem_cons_self
    · intro hne name hname hother
      simp only [List.mem_cons, List.not_mem_nil, or_false] at hname hother
      rcases hname with rfl | rfl
      · rcases hother with heq | heq
        · exact hne (List.append_cancel_right heq)
        · exact hwhere heq
      · rcases hother with heq | heq
        · exact hrow heq.symm
        · exact hne (List.append_cancel_right heq)
  rw [List.nodup_append, List.nodup_flatMap]
  constructor
  · rintro ⟨-, ⟨-, hpairs⟩, -⟩
    exact hpairs.imp fun {pre other} hdisjoint => (hapart pre other).1 hdisjoint
  · intro hnodup
    refine ⟨by decide,
      ⟨fun pre _ => ?_, hnodup.imp fun {pre other} hne => (hapart pre other).2 hne⟩, hfixed⟩
    simp

theorem nodup_map_toList {names : List String} {rest : List (List Char)} :
    ((names.map fun name => (name.toList, rest)).map Prod.fst).Nodup ↔ names.Nodup := by
  rw [List.map_map]
  exact List.nodup_map_iff fun a b h => String.toList_inj.1 h

theorem nodup_fields_fixed {type : SdlType} (h : type ∈ sdlFixedTypes) :
    (type.fields.map Prod.fst).Nodup ∧ ∀ field ∈ type.fields, field.2.Nodup := by
  revert type
  decide

theorem nodup_rootFields {schemas : List TableSchema} (hnames : (schemas.map (·.name)).Nodup) :
    ((sdlRootFields schemas).map Prod.fst).Nodup ∧
    ∀ field ∈ sdlRootFields schemas, field.2.Nodup := by
  rw [sdlRootFields]
  split_ifs
  · decide
  · have hmap : (schemas.map fun schema => (schema.name.toList, sdlArguments)) =
        (schemas.map (·.name)).map fun name => (name.toList, sdlArguments) := by
      rw [List.map_map]
      rfl
    rw [hmap, nodup_map_toList]
    refine ⟨hnames, fun field hfield => ?_⟩
    obtain ⟨name, -, rfl⟩ := List.mem_map.1 hfield
    exact (by decide : sdlArguments.Nodup)

theorem nodup_whereFields (schema : TableSchema) : schema.whereFields.Nodup :=
  Std.ExtTreeSet.distinct_toList.imp fun hne heq => hne (compare_eq_iff_eq.2 heq)

/-- **The types of a table** have no field twice exactly when no column has the name of a fixed
field. -/
theorem nodup_fields_sdlTypes (h : schema.Valid) :
    (∀ type ∈ schema.sdlTypes, (type.fields.map Prod.fst).Nodup) ↔
      ∀ column ∈ schema.columnNames, column ∉ sdlRowNames := by
  have hinput : ((if schema.whereFields = [] then [("_empty".toList, ([] : List (List Char)))]
      else schema.whereFields.map (·.toList, [])).map Prod.fst).Nodup := by
    split_ifs
    · decide
    · exact nodup_map_toList.2 (nodup_whereFields schema)
  rw [TableSchema.sdlTypes, List.forall_mem_cons, List.forall_mem_singleton, and_iff_right hinput]
  dsimp only
  rw [← List.map_append, nodup_map_toList, List.nodup_append]
  constructor
  · rintro ⟨-, -, hapart⟩ column hcolumn hrow
    exact hapart column hrow column hcolumn rfl
  · intro hcolumns
    exact ⟨by decide, h.distinct, fun name hname column hcolumn heq => hcolumns column hcolumn
      (heq ▸ hname)⟩

theorem nodup_arguments_sdlTypes {type : SdlType} (h : type ∈ schema.sdlTypes) :
    ∀ field ∈ type.fields, field.2.Nodup := by
  have hplain : ∀ {names : List String},
      ∀ field ∈ names.map fun name => (name.toList, ([] : List (List Char))), field.2.Nodup := by
    intro names field hfield
    obtain ⟨name, -, rfl⟩ := List.mem_map.1 hfield
    exact List.nodup_nil
  rw [TableSchema.sdlTypes, List.mem_cons, List.mem_singleton] at h
  rcases h with rfl | rfl
  · dsimp only
    split_ifs
    · decide
    · exact hplain
  · exact List.forall_mem_append.2 ⟨hplain, hplain⟩

variable {schemas : List TableSchema}

/-- **Which documents define a name twice.**  For validated tables with different names there is a
document. It defines no type twice, and no type in it two fields and no field two arguments of one
name, exactly when the type prefixes of the tables differ and no column has the name of a fixed
field of the rows. -/
theorem sdl_wellFormed_iff (F : CompilerFormat S)
    (hvalid : ∀ schema ∈ schemas, schema.validate = .ok ())
    (hnames : (schemas.map (·.name)).Nodup) :
    ∃ document, graphqlSchemaSdlFromTables F schemas = .ok document ∧
      (SdlWellFormed (readSdl document) ↔
        (schemas.map fun schema => graphqlTableTypePrefix schema.name).Nodup ∧
          ∀ schema ∈ schemas, ∀ column ∈ schema.columnNames, column ∉ sdlRowNames) := by
  have hvalid : ∀ schema ∈ schemas, schema.Valid :=
    fun schema hschema => .of_validate (hvalid schema hschema)
  obtain ⟨document, hdocument, htypes⟩ := readSdl_document (F := F) hvalid
  refine ⟨document, hdocument, ?_⟩
  rw [htypes, ← types_nodup_iff]
  have hmem : ∀ {schema}, schema ∈ schemas → ∀ type ∈ schema.sdlTypes, type ∈ sdlTypes schemas :=
    fun hschema type htype => List.mem_append_right _
      (List.mem_cons_of_mem _ (List.mem_flatMap.2 ⟨_, hschema, htype⟩))
  constructor
  · intro h
    exact ⟨h.types_nodup, fun schema hschema => (nodup_fields_sdlTypes (hvalid schema hschema)).1
      fun type htype => h.fields_nodup type (hmem hschema type htype)⟩
  · rintro ⟨hnodup, hcolumns⟩
    have hcases : ∀ {p : SdlType → Prop}, (∀ type ∈ sdlFixedTypes, p type) →
        p ⟨"Query".toList, sdlRootFields schemas⟩ →
        (∀ schema ∈ schemas, ∀ type ∈ schema.sdlTypes, p type) →
          ∀ type ∈ sdlTypes schemas, p type := by
      intro p hfixed hquery htables
      refine List.forall_mem_append.2
        ⟨hfixed, List.forall_mem_cons.2 ⟨hquery, fun type htype => ?_⟩⟩
      obtain ⟨schema, hschema, htype⟩ := List.mem_flatMap.1 htype
      exact htables schema hschema type htype
    refine ⟨hnodup, ?_, ?_⟩
    · exact hcases (fun type htype => (nodup_fields_fixed htype).1) (nodup_rootFields hnames).1
        fun schema hschema => (nodup_fields_sdlTypes (hvalid schema hschema)).2
          (hcolumns schema hschema)
    · exact hcases (fun type htype => (nodup_fields_fixed htype).2) (nodup_rootFields hnames).2
        fun schema _ type htype => nodup_arguments_sdlTypes htype

/-- A table of notes with a text and a vector column. -/
theorem sdl_wellFormed_notes :
    ∃ document, graphqlSchemaSdlFromTables CompilerFormat.reference
        [⟨"notes", "id", "tenant", ["kind"], ["body"], [⟨"embedding", 3, ["body"]⟩]⟩] =
          .ok document ∧
      SdlWellFormed (readSdl document) := by
  obtain ⟨document, hdocument, hiff⟩ := sdl_wellFormed_iff CompilerFormat.reference
    (by decide : ∀ schema ∈ [TableSchema.mk "notes" "id" "tenant" ["kind"] ["body"]
      [⟨"embedding", 3, ["body"]⟩]], _)
    (by decide)
  exact ⟨document, hdocument, hiff.2 (by decide)⟩

/-- Tables whose names are told apart by underscores and letter case only. -/
example : graphqlTableTypePrefix "user_profile" = graphqlTableTypePrefix "userProfile" := by decide

/-- **A tenant column by its usual name** is a second `tenant_id` among the fields of the rows. -/
theorem tenant_id_twice :
    ¬ ∀ schemas : List TableSchema, (∀ schema ∈ schemas, schema.validate = .ok ()) →
      (schemas.map (·.name)).Nodup → ∀ document,
        graphqlSchemaSdlFromTables CompilerFormat.reference schemas = .ok document →
          SdlWellFormed (readSdl document) := by
  intro h
  have hvalidate : ∀ schema ∈ [TableSchema.mk "docs" "id" "tenant_id" [] [] []],
      schema.validate = .ok () := by
    decide
  have hvalid := fun schema hschema => TableSchema.Valid.of_validate (hvalidate schema hschema)
  obtain ⟨document, hdocument, htypes⟩ := readSdl_document (F := CompilerFormat.reference) hvalid
  have hnodup := (h _ hvalidate (by decide) document hdocument).fields_nodup
  rw [htypes] at hnodup
  have hcolumns := (nodup_fields_sdlTypes (hvalid _ List.mem_cons_self)).1
    fun type htype => hnodup type
    (List.mem_append_right _
      (List.mem_cons_of_mem _ (List.mem_flatMap.2 ⟨_, List.mem_cons_self, htype⟩)))
  exact hcolumns "tenant_id" (by decide) (by decide)

end TraceDB
