import Mathlib.Data.List.Sort
import TraceDB.Core.Value
import TraceDB.Data.Except

/-!
# Table schemas

`TableSchema` and its validation, as in `tracedb-core`.  Validation returns the first violation with
the text of the source.

`TableSchema.validate_spec` collects what the engine relies on about a validated schema: vector
columns have pairwise distinct names, none of which is the id or the tenant column.
-/

namespace TraceDB

/-- `VectorColumnSchema`. -/
structure VectorColumnSchema where
  name : String
  dimensions : ℕ
  sourceColumns : List String
  deriving DecidableEq

/-- `TableSchema`. -/
structure TableSchema where
  name : String
  primaryIdColumn : String
  tenantIdColumn : String
  scalarColumns : List String
  textIndexedColumns : List String
  vectorColumns : List VectorColumnSchema
  deriving DecidableEq

/-! ### Identifiers -/

/-- `char::is_ascii_alphabetic`. -/
def isAsciiAlphabetic (c : Char) : Bool :=
  ('a' ≤ c && c ≤ 'z') || ('A' ≤ c && c ≤ 'Z')

/-- `char::is_ascii_alphanumeric`. -/
def isAsciiAlphanumeric (c : Char) : Bool := isAsciiAlphabetic c || ('0' ≤ c && c ≤ '9')

/-- `is_graphql_safe_identifier`. -/
def isGraphqlSafeIdentifier (name : String) : Bool :=
  match name.toList with
  | [] => false
  | first :: chars =>
    if !(first == '_' || isAsciiAlphabetic first) then false
    else chars.all fun ch => ch == '_' || isAsciiAlphanumeric ch

/-- `validate_schema_identifier`. -/
def validateSchemaIdentifier (name context : String) : Result String :=
  let trimmed := Text.trim name
  if trimmed = "" then
    .error (.invalidSchema s!"{context} cannot be empty")
  else if trimmed ≠ name then
    .error (.invalidSchema
      s!"{context} {trimmed} must not have leading or trailing whitespace")
  else if Text.startsWith trimmed "__" then
    .error (.invalidSchema s!"{context} {trimmed} is reserved for GraphQL introspection")
  else if !isGraphqlSafeIdentifier trimmed then
    .error (.invalidSchema s!"{context} {trimmed} is not a GraphQL-safe identifier")
  else .ok trimmed

/-- `reject_reserved_result_column`. -/
def rejectReservedResultColumn (column : String) : Result Unit :=
  if column ∈ ["record_id", "version_id", "fields", "score"] then
    .error (.invalidSchema s!"column {column} is reserved for TraceDB result metadata")
  else .ok ()

/-- `reject_identity_overlap`. -/
def rejectIdentityOverlap (column identityColumn identityKind columnKind : String) : Result Unit :=
  if column = identityColumn then
    .error (.invalidSchema s!"column {column} cannot be both {identityKind} and {columnKind}")
  else .ok ()

/-- `validate_column_set`; `seen` is the set collected so far, in ascending order. -/
def validateColumnSet (kind : String) : List String → List String → Result (List String)
  | seen, [] => .ok seen
  | seen, column :: columns => do
    let column ← validateSchemaIdentifier column kind
    rejectReservedResultColumn column
    if column ∈ seen then .error (.invalidSchema s!"duplicate {kind} {column}")
    else validateColumnSet kind (seen.orderedInsert (· ≤ ·) column) columns

/-! ### Validation of a table -/

namespace TableSchema

variable (schema : TableSchema)

/-- The loop over the scalar columns. -/
def validateScalarColumn (column : String) : Result Unit := do
  rejectIdentityOverlap column schema.primaryIdColumn "primary id" "scalar"
  rejectIdentityOverlap column schema.tenantIdColumn "tenant id" "scalar"

/-- The loop over the text indexed columns. -/
def validateTextColumn (scalarColumns : List String) (column : String) : Result Unit := do
  rejectIdentityOverlap column schema.primaryIdColumn "primary id" "text indexed"
  rejectIdentityOverlap column schema.tenantIdColumn "tenant id" "text indexed"
  if column ∈ scalarColumns then
    .error (.invalidSchema s!"column {column} cannot be both scalar and text indexed")
  else .ok ()

/-- The loop over the source columns of one vector column. -/
def validateSourceColumns (vectorName : String) (declared : List String) :
    List String → List String → Result Unit
  | _, [] => .ok ()
  | seen, source :: sources => do
    let source ← validateSchemaIdentifier source "vector source column"
    if source ∈ seen then
      .error (.invalidSchema s!"duplicate vector column {vectorName} source column {source}")
    else if source ∉ declared then
      .error (.invalidSchema
        s!"vector column {vectorName} source column {source} is not declared")
    else validateSourceColumns vectorName declared (source :: seen) sources

/-- The checks of one vector column after its name has been found new. -/
def validateVectorColumn (scalarColumns textColumns : List String) (vectorName : String)
    (vector : VectorColumnSchema) : Result Unit := do
  rejectReservedResultColumn vectorName
  rejectIdentityOverlap vectorName schema.primaryIdColumn "primary id" "vector"
  rejectIdentityOverlap vectorName schema.tenantIdColumn "tenant id" "vector"
  if vectorName ∈ scalarColumns then
    .error (.invalidSchema s!"column {vectorName} cannot be both scalar and vector")
  else if vectorName ∈ textColumns then
    .error (.invalidSchema s!"column {vectorName} cannot be both text indexed and vector")
  else if vector.dimensions = 0 then
    .error (.invalidSchema s!"vector column {vectorName} must have dimensions")
  else if vector.sourceColumns = [] then
    .error (.invalidSchema s!"vector column {vectorName} must declare source columns")
  else
    validateSourceColumns vectorName
      (textColumns ++ scalarColumns ++ [schema.tenantIdColumn, schema.primaryIdColumn]) []
      vector.sourceColumns

/-- The loop over the vector columns; `seen` is the set of names met so far. -/
def validateVectorColumns (scalarColumns textColumns : List String) :
    List String → List VectorColumnSchema → Result Unit
  | _, [] => .ok ()
  | seen, vector :: vectors => do
    let vectorName ← validateSchemaIdentifier vector.name "vector column name"
    if vectorName ∈ seen then
      .error (.invalidSchema s!"duplicate vector column {vectorName}")
    else do
      schema.validateVectorColumn scalarColumns textColumns vectorName vector
      validateVectorColumns scalarColumns textColumns (vectorName :: seen) vectors

/-- `TableSchema::validate`. -/
def validate : Result Unit := do
  let _ ← validateSchemaIdentifier schema.name "table name"
  let _ ← validateSchemaIdentifier schema.primaryIdColumn "primary id column"
  let _ ← validateSchemaIdentifier schema.tenantIdColumn "tenant id column"
  if schema.primaryIdColumn = schema.tenantIdColumn then
    .error (.invalidSchema "primary id column and tenant id column must be distinct")
  else do
    let scalarColumns ← validateColumnSet "scalar column" [] schema.scalarColumns
    scalarColumns.forM schema.validateScalarColumn
    let textColumns ← validateColumnSet "text indexed column" [] schema.textIndexedColumns
    textColumns.forM (schema.validateTextColumn scalarColumns)
    schema.validateVectorColumns scalarColumns textColumns [] schema.vectorColumns

end TableSchema

/-! ### What validation guarantees -/

theorem validateSchemaIdentifier_ok {name context s : String}
    (h : validateSchemaIdentifier name context = .ok s) :
    s = name ∧ isGraphqlSafeIdentifier name = true := by
  simp only [validateSchemaIdentifier] at h
  split_ifs at h with _ h₁ _ h₂
  obtain rfl := Except.ok.inj h
  simp_all

theorem rejectIdentityOverlap_ok {column identityColumn identityKind columnKind : String}
    (h : rejectIdentityOverlap column identityColumn identityKind columnKind = .ok ()) :
    column ≠ identityColumn := by
  unfold rejectIdentityOverlap at h
  split_ifs at h with hc
  exact hc

/-- Identifiers hold no NUL character. -/
theorem not_mem_of_isGraphqlSafeIdentifier {name : String}
    (h : isGraphqlSafeIdentifier name = true) :
    Char.ofNat 0 ∉ name.toList := by
  unfold isGraphqlSafeIdentifier at h
  cases hn : name.toList with
  | nil => simp
  | cons first chars =>
    simp only [hn] at h
    split_ifs at h with hf
    simp only [List.all_eq_true] at h
    intro hmem
    rcases List.mem_cons.1 hmem with rfl | hmem
    · exact absurd hf (by decide)
    · exact absurd (h _ hmem) (by decide)

namespace TableSchema

variable {schema : TableSchema}

theorem validateVectorColumn_ok {scalarColumns textColumns : List String} {name : String}
    {vector : VectorColumnSchema}
    (h : schema.validateVectorColumn scalarColumns textColumns name vector = .ok ()) :
    name ≠ schema.primaryIdColumn ∧ name ≠ schema.tenantIdColumn := by
  simp only [validateVectorColumn, Except.bind_eq_ok_iff] at h
  obtain ⟨_, _, _, h₁, _, h₂, _⟩ := h
  exact ⟨rejectIdentityOverlap_ok h₁, rejectIdentityOverlap_ok h₂⟩

theorem validateVectorColumns_ok {scalarColumns textColumns seen : List String}
    {vectors : List VectorColumnSchema}
    (h : schema.validateVectorColumns scalarColumns textColumns seen vectors = .ok ()) :
    (vectors.map (·.name)).Nodup ∧ (∀ v ∈ vectors, v.name ∉ seen) ∧
      ∀ v ∈ vectors, v.name ≠ schema.primaryIdColumn ∧ v.name ≠ schema.tenantIdColumn := by
  induction vectors generalizing seen with
  | nil => simp
  | cons vector vectors ih =>
    simp only [validateVectorColumns, Except.bind_eq_ok_iff] at h
    obtain ⟨name, hname, h⟩ := h
    obtain rfl := (validateSchemaIdentifier_ok hname).1
    rw [Except.guard_eq_ok_iff, Except.bind_eq_ok_iff] at h
    obtain ⟨hseen, _, hv, h⟩ := h
    obtain ⟨hnodup, hnew, hid⟩ := ih h
    refine ⟨?_, ?_, ?_⟩
    · rw [List.map_cons, List.nodup_cons]
      refine ⟨fun hmem => ?_, hnodup⟩
      obtain ⟨w, hw, hwn⟩ := List.mem_map.1 hmem
      exact hnew w hw (by simp [hwn])
    · intro w hw
      rcases List.mem_cons.1 hw with rfl | hw
      · exact hseen
      · exact fun hmem => hnew w hw (List.mem_cons_of_mem _ hmem)
    · intro w hw
      rcases List.mem_cons.1 hw with rfl | hw
      · exact validateVectorColumn_ok hv
      · exact hid w hw

/-- The part of a validated schema that record writes depend on. -/
structure WellFormed (schema : TableSchema) : Prop where
  safeName : isGraphqlSafeIdentifier schema.name = true
  idNotTenant : schema.primaryIdColumn ≠ schema.tenantIdColumn
  vectorNames : (schema.vectorColumns.map (·.name)).Nodup
  vectorNotId : ∀ v ∈ schema.vectorColumns,
    v.name ≠ schema.primaryIdColumn ∧ v.name ≠ schema.tenantIdColumn

theorem validate_spec (h : schema.validate = .ok ()) : schema.WellFormed := by
  simp only [validate, Except.bind_eq_ok_iff] at h
  obtain ⟨name, hname, _, _, _, _, h⟩ := h
  rw [Except.guard_eq_ok_iff] at h
  simp only [Except.bind_eq_ok_iff] at h
  obtain ⟨hdistinct, _, _, _, _, _, _, _, _, h⟩ := h
  obtain ⟨hnodup, -, hid⟩ := validateVectorColumns_ok h
  exact ⟨(validateSchemaIdentifier_ok hname).2, hdistinct, hnodup, hid⟩

end TableSchema

end TraceDB
