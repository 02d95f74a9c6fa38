import TraceDB.Core.Schema
import TraceDB.Core.Text

/-!
# Validation of schemas is exact

`TableSchema.validate` is a sequence of loops that share what they have seen.  It returns `Ok` for
exactly the schemas that are valid (`TableSchema.validate_iff`), where `TableSchema.Valid` says so
without loops.
-/

namespace TraceDB

/-- A name that a table or a column may have. -/
def IsSafeIdentifier (name : String) : Prop :=
  (∃ first chars, name.toList = first :: chars ∧ (first = '_' ∨ isAsciiAlphabetic first = true) ∧
    ∀ ch ∈ chars, ch = '_' ∨ isAsciiAlphanumeric ch = true) ∧
  -- Names that start so belong to the introspection of GraphQL.
  ¬ "__".toList <+: name.toList

/-- The names of the metadata in a result. -/
def reservedResultColumns : List String := ["record_id", "version_id", "fields", "score"]

namespace TableSchema

/-- The names of all columns. -/
def columnNames (schema : TableSchema) : List String :=
  schema.primaryIdColumn :: schema.tenantIdColumn ::
    (schema.scalarColumns ++ (schema.textIndexedColumns ++ schema.vectorColumns.map (·.name)))

/-- The columns that a vector may be made from. -/
def sourceNames (schema : TableSchema) : List String :=
  schema.primaryIdColumn :: schema.tenantIdColumn ::
    (schema.scalarColumns ++ schema.textIndexedColumns)

/-- A schema in which every name is fit for its place. -/
structure Valid (schema : TableSchema) : Prop where
  safeName : IsSafeIdentifier schema.name
  safeColumns : ∀ column ∈ schema.columnNames, IsSafeIdentifier column
  distinct : schema.columnNames.Nodup
  notReserved : ∀ column ∈ schema.scalarColumns ++ (schema.textIndexedColumns ++
    schema.vectorColumns.map (·.name)), column ∉ reservedResultColumns
  dimensions_pos : ∀ vector ∈ schema.vectorColumns, 0 < vector.dimensions
  sources : ∀ vector ∈ schema.vectorColumns, vector.sourceColumns ≠ [] ∧
    vector.sourceColumns.Nodup ∧
    ∀ source ∈ vector.sourceColumns, source ∈ schema.sourceNames

end TableSchema

/-! ### Names -/

theorem isAsciiAlphanumeric_visible {c : Char} (h : isAsciiAlphanumeric c = true) :
    32 < c.toNat ∧ c.toNat < 127 := by
  simp only [isAsciiAlphanumeric, isAsciiAlphabetic, Bool.or_eq_true, Bool.and_eq_true,
    decide_eq_true_eq, Char.le_def, UInt32.le_iff_toNat_le] at h
  change 32 < c.val.toNat ∧ c.val.toNat < 127
  rcases h with (h | h) | h
  · have hlow : 'a'.val.toNat = 97 := rfl
    have hhigh : 'z'.val.toNat = 122 := rfl
    omega
  · have hlow : 'A'.val.toNat = 65 := rfl
    have hhigh : 'Z'.val.toNat = 90 := rfl
    omega
  · have hlow : '0'.val.toNat = 48 := rfl
    have hhigh : '9'.val.toNat = 57 := rfl
    omega

theorem isGraphqlSafeIdentifier_iff {name : String} :
    isGraphqlSafeIdentifier name = true ↔
      ∃ first chars, name.toList = first :: chars ∧ (first = '_' ∨ isAsciiAlphabetic first = true) ∧
        ∀ ch ∈ chars, ch = '_' ∨ isAsciiAlphanumeric ch = true := by
  rw [isGraphqlSafeIdentifier]
  cases name.toList with
  | nil => simp
  | cons first chars =>
    by_cases hfirst : first = '_' ∨ isAsciiAlphabetic first = true
    · have hstart : (!(first == '_' || isAsciiAlphabetic first)) = false := by
        rw [Bool.not_eq_false', Bool.or_eq_true, beq_iff_eq]
        exact hfirst
      simp [hstart, hfirst]
    · have hstart : (!(first == '_' || isAsciiAlphabetic first)) = true := by simpa using hfirst
      simp [hstart, hfirst]

/-- There is nothing to trim at a safe identifier. -/
theorem IsSafeIdentifier.trim {name : String} (h : IsSafeIdentifier name) :
    Text.trim name = name := by
  obtain ⟨⟨first, chars, hname, hfirst, hchars⟩, -⟩ := h
  refine Text.trim_eq_self fun c hc => ?_
  have hvisible : c = '_' ∨ isAsciiAlphanumeric c = true := by
    rw [hname] at hc
    rcases List.mem_cons.1 hc with rfl | hc
    · exact hfirst.imp_right fun halpha => by rw [isAsciiAlphanumeric, halpha, Bool.true_or]
    · exact hchars c hc
  rcases hvisible with rfl | hvisible
  · decide
  · exact Text.isWhitespace_of_visible (isAsciiAlphanumeric_visible hvisible)

theorem validateSchemaIdentifier_iff {name context s : String} :
    validateSchemaIdentifier name context = .ok s ↔ s = name ∧ IsSafeIdentifier name := by
  have hstarts : Text.startsWith name "__" = true ↔ "__".toList <+: name.toList := by
    rw [Text.startsWith, List.isPrefixOf_iff_prefix]
  constructor
  · intro h
    rw [validateSchemaIdentifier] at h
    split_ifs at h with hempty htrim hstart hsafe
    rw [not_not] at htrim
    rw [htrim] at hstart hsafe
    refine ⟨(Except.ok.inj h).symm.trans htrim, isGraphqlSafeIdentifier_iff.1
      (by simpa using hsafe), ?_⟩
    exact fun hc => hstart (hstarts.2 hc)
  · rintro ⟨rfl, hsafe⟩
    have hne : s ≠ "" := by
      rintro rfl
      obtain ⟨⟨first, chars, hname, -⟩, -⟩ := hsafe
      cases hname
    rw [validateSchemaIdentifier, hsafe.trim, if_neg hne, if_neg (by simp),
      if_neg fun hc => hsafe.2 (hstarts.1 hc),
      if_neg (by simp [isGraphqlSafeIdentifier_iff.2 hsafe.1])]

theorem rejectReservedResultColumn_iff {column : String} {u : Unit} :
    rejectReservedResultColumn column = .ok u ↔ column ∉ reservedResultColumns := by
  rw [rejectReservedResultColumn, Except.guard_eq_ok_iff]
  exact and_iff_left rfl

theorem rejectIdentityOverlap_iff {column identityColumn identityKind columnKind : String}
    {u : Unit} :
    rejectIdentityOverlap column identityColumn identityKind columnKind = .ok u ↔
      column ≠ identityColumn := by
  rw [rejectIdentityOverlap, Except.guard_eq_ok_iff]
  exact and_iff_left rfl

/-! ### Loops -/

/-- The columns, put into a set. -/
def insertColumns (seen columns : List String) : List String :=
  columns.foldl (fun seen column => seen.orderedInsert (· ≤ ·) column) seen

theorem mem_insertColumns {column : String} {seen columns : List String} :
    column ∈ insertColumns seen columns ↔ column ∈ columns ∨ column ∈ seen := by
  induction columns generalizing seen with
  | nil => simp [insertColumns]
  | cons other columns ih =>
    rw [insertColumns, List.foldl_cons]
    refine ih.trans ?_
    rw [List.mem_orderedInsert, List.mem_cons, or_left_comm, or_assoc]

theorem validateColumnSet_iff {kind : String} {seen columns out : List String} :
    validateColumnSet kind seen columns = .ok out ↔
      out = insertColumns seen columns ∧ (∀ column ∈ columns, IsSafeIdentifier column) ∧
        (∀ column ∈ columns, column ∉ reservedResultColumns) ∧ columns.Nodup ∧
        List.Disjoint columns seen := by
  induction columns generalizing seen with
  | nil => simp [validateColumnSet, insertColumns, eq_comm]
  | cons column columns ih =>
    have hnew : List.Disjoint columns (seen.orderedInsert (· ≤ ·) column) ↔
        column ∉ columns ∧ List.Disjoint columns seen := by
      rw [← List.disjoint_cons_right, (List.perm_orderedInsert (· ≤ ·) column seen).disjoint_right]
    simp only [validateColumnSet, Except.bind_eq_ok_iff, validateSchemaIdentifier_iff]
    constructor
    · rintro ⟨_, ⟨rfl, hsafe⟩, ⟨⟩, hreserved, h⟩
      rw [rejectReservedResultColumn_iff] at hreserved
      rw [Except.guard_eq_ok_iff] at h
      obtain ⟨hseen, h⟩ := h
      obtain ⟨rfl, hsafes, hreserveds, hnodup, hdisjoint⟩ := ih.1 h
      rw [hnew] at hdisjoint
      refine ⟨rfl, List.forall_mem_cons.2 ⟨hsafe, hsafes⟩,
        List.forall_mem_cons.2 ⟨hreserved, hreserveds⟩, List.nodup_cons.2 ⟨hdisjoint.1, hnodup⟩,
        List.disjoint_cons_left.2 ⟨hseen, hdisjoint.2⟩⟩
    · rintro ⟨rfl, hsafe, hreserved, hnodup, hdisjoint⟩
      rw [List.forall_mem_cons] at hsafe hreserved
      rw [List.nodup_cons] at hnodup
      rw [List.disjoint_cons_left] at hdisjoint
      refine ⟨column, ⟨rfl, hsafe.1⟩, (), rejectReservedResultColumn_iff.2 hreserved.1, ?_⟩
      rw [Except.guard_eq_ok_iff]
      refine ⟨hdisjoint.1, ih.2 ⟨rfl, hsafe.2, hreserved.2, hnodup.2, ?_⟩⟩
      exact hnew.2 ⟨hnodup.1, hdisjoint.2⟩

namespace TableSchema

theorem validateSourceColumns_iff {vectorName : String} {declared seen sources : List String} :
    validateSourceColumns vectorName declared seen sources = .ok () ↔
      (∀ source ∈ sources, IsSafeIdentifier source) ∧ (∀ source ∈ sources, source ∈ declared) ∧
        sources.Nodup ∧ List.Disjoint sources seen := by
  induction sources generalizing seen with
  | nil => simp [validateSourceColumns]
  | cons source sources ih =>
    simp only [validateSourceColumns, Except.bind_eq_ok_iff, validateSchemaIdentifier_iff]
    constructor
    · rintro ⟨_, ⟨rfl, hsafe⟩, h⟩
      rw [Except.guard_eq_ok_iff, Except.guard_eq_ok_iff, not_not, ih,
        List.disjoint_cons_right] at h
      obtain ⟨hseen, hdeclared, hsafes, hdeclareds, hnodup, hnew, hdisjoint⟩ := h
      exact ⟨List.forall_mem_cons.2 ⟨hsafe, hsafes⟩, List.forall_mem_cons.2 ⟨hdeclared, hdeclareds⟩,
        List.nodup_cons.2 ⟨hnew, hnodup⟩, List.disjoint_cons_left.2 ⟨hseen, hdisjoint⟩⟩
    · rintro ⟨hsafe, hdeclared, hnodup, hdisjoint⟩
      rw [List.forall_mem_cons] at hsafe hdeclared
      rw [List.nodup_cons] at hnodup
      rw [List.disjoint_cons_left] at hdisjoint
      refine ⟨source, ⟨rfl, hsafe.1⟩, ?_⟩
      rw [Except.guard_eq_ok_iff, Except.guard_eq_ok_iff, not_not, ih, List.disjoint_cons_right]
      exact ⟨hdisjoint.1, hdeclared.1, hsafe.2, hdeclared.2, hnodup.2, hnodup.1, hdisjoint.2⟩

variable {schema : TableSchema}

theorem validateScalarColumn_iff {column : String} :
    schema.validateScalarColumn column = .ok () ↔
      column ≠ schema.primaryIdColumn ∧ column ≠ schema.tenantIdColumn := by
  simp only [validateScalarColumn, Except.bind_eq_ok_iff, rejectIdentityOverlap_iff, exists_const]

theorem validateTextColumn_iff {scalarColumns : List String} {column : String} :
    schema.validateTextColumn scalarColumns column = .ok () ↔
      column ≠ schema.primaryIdColumn ∧ column ≠ schema.tenantIdColumn ∧
      column ∉ scalarColumns := by
  simp only [validateTextColumn, Except.bind_eq_ok_iff, rejectIdentityOverlap_iff, exists_const,
    Except.guard_eq_ok_iff, and_true]

/-- What one vector column must be, apart from its name. -/
theorem validateVectorColumn_iff {scalarColumns textColumns : List String} {name : String}
    {vector : VectorColumnSchema} :
    schema.validateVectorColumn scalarColumns textColumns name vector = .ok () ↔
      name ∉ reservedResultColumns ∧ name ≠ schema.primaryIdColumn ∧ name ≠ schema.tenantIdColumn ∧
        name ∉ scalarColumns ∧ name ∉ textColumns ∧ vector.dimensions ≠ 0 ∧
        vector.sourceColumns ≠ [] ∧
        (∀ source ∈ vector.sourceColumns, IsSafeIdentifier source) ∧
        (∀ source ∈ vector.sourceColumns, source ∈ textColumns ++ scalarColumns ++
          [schema.tenantIdColumn, schema.primaryIdColumn]) ∧
        vector.sourceColumns.Nodup := by
  simp only [validateVectorColumn, Except.bind_eq_ok_iff, rejectIdentityOverlap_iff,
    rejectReservedResultColumn_iff, exists_const, Except.guard_eq_ok_iff, validateSourceColumns_iff,
    List.disjoint_nil_right, and_true, ne_eq]

theorem validateVectorColumns_iff {scalarColumns textColumns seen : List String}
    {vectors : List VectorColumnSchema} :
    schema.validateVectorColumns scalarColumns textColumns seen vectors = .ok () ↔
      (∀ vector ∈ vectors, IsSafeIdentifier vector.name) ∧
        (∀ vector ∈ vectors, schema.validateVectorColumn scalarColumns textColumns
          vector.name vector = .ok ()) ∧
        (vectors.map (·.name)).Nodup ∧ List.Disjoint (vectors.map (·.name)) seen := by
  induction vectors generalizing seen with
  | nil => simp [validateVectorColumns]
  | cons vector vectors ih =>
    rw [List.map_cons, List.nodup_cons, List.disjoint_cons_left, List.forall_mem_cons,
      List.forall_mem_cons]
    simp only [validateVectorColumns, Except.bind_eq_ok_iff, validateSchemaIdentifier_iff]
    constructor
    · rintro ⟨_, ⟨rfl, hsafe⟩, h⟩
      rw [Except.guard_eq_ok_iff, Except.bind_eq_ok_iff] at h
      obtain ⟨hseen, ⟨⟩, hvector, h⟩ := h
      rw [ih, List.disjoint_cons_right] at h
      obtain ⟨hsafes, hvectors, hnodup, hnew, hdisjoint⟩ := h
      exact ⟨⟨hsafe, hsafes⟩, ⟨hvector, hvectors⟩, ⟨hnew, hnodup⟩, hseen, hdisjoint⟩
    · rintro ⟨⟨hsafe, hsafes⟩, ⟨hvector, hvectors⟩, ⟨hnew, hnodup⟩, hseen, hdisjoint⟩
      refine ⟨vector.name, ⟨rfl, hsafe⟩, ?_⟩
      rw [Except.guard_eq_ok_iff, Except.bind_eq_ok_iff]
      refine ⟨hseen, (), hvector, ?_⟩
      rw [ih, List.disjoint_cons_right]
      exact ⟨hsafes, hvectors, hnodup, hnew, hdisjoint⟩

/-! ### The whole validation -/

/-- `validate`, one part after the other. -/
theorem validate_parts : schema.validate = .ok () ↔
    IsSafeIdentifier schema.name ∧ IsSafeIdentifier schema.primaryIdColumn ∧
      IsSafeIdentifier schema.tenantIdColumn ∧ schema.primaryIdColumn ≠ schema.tenantIdColumn ∧
      ∃ scalarColumns, validateColumnSet "scalar column" [] schema.scalarColumns =
        .ok scalarColumns ∧
        (∀ column ∈ scalarColumns, schema.validateScalarColumn column = .ok ()) ∧
        ∃ textColumns, validateColumnSet "text indexed column" [] schema.textIndexedColumns =
          .ok textColumns ∧
          (∀ column ∈ textColumns, schema.validateTextColumn scalarColumns column = .ok ()) ∧
          schema.validateVectorColumns scalarColumns textColumns
            [] schema.vectorColumns = .ok () := by
  simp only [validate, Except.bind_eq_ok_iff, validateSchemaIdentifier_iff, Except.guard_eq_ok_iff]
  constructor
  · rintro ⟨_, ⟨-, hname⟩, _, ⟨-, hprimary⟩, _, ⟨-, htenant⟩, hne, scalars, hscalars, ⟨⟩, hscalar,
      texts, htexts, ⟨⟩, htext, hvectors⟩
    exact ⟨hname, hprimary, htenant, hne, scalars, hscalars, Except.forM_eq_ok_iff.1 hscalar,
      texts, htexts, Except.forM_eq_ok_iff.1 htext, hvectors⟩
  · rintro ⟨hname, hprimary, htenant, hne, scalars, hscalars, hscalar, texts, htexts,
      htext, hvectors⟩
    exact ⟨_, ⟨rfl, hname⟩, _, ⟨rfl, hprimary⟩, _, ⟨rfl, htenant⟩, hne, scalars, hscalars, (),
      Except.forM_eq_ok_iff.2 hscalar, texts, htexts, (), Except.forM_eq_ok_iff.2 htext, hvectors⟩

/-- The columns of the five groups are distinct, group by group. -/
theorem nodup_columnNames : schema.columnNames.Nodup ↔
    schema.primaryIdColumn ≠ schema.tenantIdColumn ∧
      (schema.scalarColumns.Nodup ∧ ∀ column ∈ schema.scalarColumns,
        column ≠ schema.primaryIdColumn ∧ column ≠ schema.tenantIdColumn) ∧
      (schema.textIndexedColumns.Nodup ∧ ∀ column ∈ schema.textIndexedColumns,
        column ≠ schema.primaryIdColumn ∧ column ≠ schema.tenantIdColumn ∧
        column ∉ schema.scalarColumns) ∧
      ((schema.vectorColumns.map (·.name)).Nodup ∧ ∀ vector ∈ schema.vectorColumns,
        vector.name ≠ schema.primaryIdColumn ∧ vector.name ≠ schema.tenantIdColumn ∧
          vector.name ∉ schema.scalarColumns ∧ vector.name ∉ schema.textIndexedColumns) := by
  have hvectors : (∀ name ∈ schema.vectorColumns.map (·.name), name ≠ schema.primaryIdColumn ∧
      name ≠ schema.tenantIdColumn ∧ name ∉ schema.scalarColumns ∧
      name ∉ schema.textIndexedColumns) ↔
      ∀ vector ∈ schema.vectorColumns, vector.name ≠ schema.primaryIdColumn ∧
        vector.name ≠ schema.tenantIdColumn ∧ vector.name ∉ schema.scalarColumns ∧
        vector.name ∉ schema.textIndexedColumns := List.forall_mem_map
  rw [columnNames, List.nodup_cons, List.nodup_cons, List.nodup_append, List.nodup_append]
  simp only [List.mem_cons, List.mem_append, not_or]
  constructor
  · rintro ⟨⟨hne, hscalar, htext, hvector⟩, ⟨hscalar', htext', hvector'⟩, hscalars,
      ⟨htexts, hnames, hcross⟩, hcross'⟩
    refine ⟨hne, ⟨hscalars, ?_⟩, ⟨htexts, ?_⟩, hnames, hvectors.1 ?_⟩
    · exact fun column hc => ⟨fun h => hscalar (h ▸ hc), fun h => hscalar' (h ▸ hc)⟩
    · exact fun column hc => ⟨fun h => htext (h ▸ hc), fun h => htext' (h ▸ hc),
        fun h => hcross' column h column (.inl hc) rfl⟩
    · exact fun name hc => ⟨fun h => hvector (h ▸ hc), fun h => hvector' (h ▸ hc),
        fun h => hcross' name h name (.inr hc) rfl, fun h => hcross name h name hc rfl⟩
  · rintro ⟨hne, ⟨hscalars, hscalar⟩, ⟨htexts, htext⟩, hnames, hvector⟩
    rw [← hvectors] at hvector
    refine ⟨⟨hne, fun h => (hscalar _ h).1 rfl, fun h => (htext _ h).1 rfl,
      fun h => (hvector _ h).1 rfl⟩, ⟨fun h => (hscalar _ h).2 rfl, fun h => (htext _ h).2.1 rfl,
      fun h => (hvector _ h).2.1 rfl⟩, hscalars, ⟨htexts, hnames, ?_⟩, ?_⟩
    · rintro column hc name hname rfl
      exact (hvector _ hname).2.2.2 hc
    · rintro column hc name (hname | hname) rfl
      · exact (htext _ hname).2.2 hc
      · exact (hvector _ hname).2.2.1 hc

theorem forall_mem_columnNames {p : String → Prop} : (∀ column ∈ schema.columnNames, p column) ↔
    p schema.primaryIdColumn ∧ p schema.tenantIdColumn ∧
    (∀ column ∈ schema.scalarColumns, p column) ∧
      (∀ column ∈ schema.textIndexedColumns, p column) ∧
      ∀ vector ∈ schema.vectorColumns, p vector.name := by
  rw [columnNames, List.forall_mem_cons, List.forall_mem_cons, List.forall_mem_append,
    List.forall_mem_append, List.forall_mem_map]

/-- What passes is valid. -/
theorem Valid.of_validate (h : schema.validate = .ok ()) : schema.Valid := by
  rw [validate_parts] at h
  simp only [validateColumnSet_iff, validateVectorColumns_iff, validateVectorColumn_iff,
    List.disjoint_nil_right, and_true] at h
  obtain ⟨hname, hprimary, htenant, hne, _, ⟨rfl, hsafe, hreserved, hnodup⟩, hscalar, _,
    ⟨rfl, hsafeText, hreservedText, hnodupText⟩, htext, hsafeVector, hvector, hnodupVector⟩ := h
  simp only [mem_insertColumns, validateScalarColumn_iff, validateTextColumn_iff, List.mem_append,
    List.mem_cons, List.not_mem_nil, or_false] at hscalar htext hvector
  refine ⟨hname, forall_mem_columnNames.2 ⟨hprimary, htenant, hsafe, hsafeText, hsafeVector⟩,
    nodup_columnNames.2 ⟨hne, ⟨hnodup, hscalar⟩, ⟨hnodupText, htext⟩, hnodupVector, ?_⟩, ?_, ?_, ?_⟩
  · intro vector hmem
    obtain ⟨-, hid, htenantId, hscalars, htexts, -⟩ := hvector vector hmem
    exact ⟨hid, htenantId, hscalars, htexts⟩
  · rw [List.forall_mem_append, List.forall_mem_append, List.forall_mem_map]
    exact ⟨hreserved, hreservedText, fun vector hmem => (hvector vector hmem).1⟩
  · intro vector hmem
    obtain ⟨-, -, -, -, -, hdimensions, -⟩ := hvector vector hmem
    omega
  · intro vector hmem
    obtain ⟨-, -, -, -, -, -, hsome, -, hsources, hnodupSources⟩ := hvector vector hmem
    refine ⟨hsome, hnodupSources, fun source hsource => ?_⟩
    rw [sourceNames, List.mem_cons, List.mem_cons, List.mem_append]
    rcases hsources source hsource with (h | h) | h | h <;> simp [h]

/-- What is valid passes. -/
theorem Valid.validate (h : schema.Valid) : schema.validate = .ok () := by
  obtain ⟨hname, hsafe, hdistinct, hreserved, hdimensions, hsources⟩ := h
  rw [validate_parts]
  simp only [validateColumnSet_iff, validateVectorColumns_iff, validateVectorColumn_iff,
    List.disjoint_nil_right, and_true]
  obtain ⟨hprimary, htenant, hsafeScalar, hsafeText, hsafeVector⟩ := forall_mem_columnNames.1 hsafe
  obtain ⟨hne, ⟨hnodup, hscalar⟩, ⟨hnodupText, htext⟩, hnodupVector, hvector⟩ :=
    nodup_columnNames.1 hdistinct
  rw [List.forall_mem_append, List.forall_mem_append, List.forall_mem_map] at hreserved
  refine ⟨hname, hprimary, htenant, hne, _, ⟨rfl, hsafeScalar, hreserved.1, hnodup⟩, ?_, _,
    ⟨rfl, hsafeText, hreserved.2.1, hnodupText⟩, ?_, hsafeVector, ?_, hnodupVector⟩
  · simpa only [mem_insertColumns, List.not_mem_nil, or_false,
      validateScalarColumn_iff] using hscalar
  · simpa only [mem_insertColumns, List.not_mem_nil, or_false, validateTextColumn_iff] using htext
  · simp only [mem_insertColumns, List.mem_append, List.mem_cons, List.not_mem_nil, or_false]
    intro vector hmem
    obtain ⟨hid, htenantId, hscalars, htexts⟩ := hvector vector hmem
    obtain ⟨hsome, hnodupSources, hdeclared⟩ := hsources vector hmem
    refine ⟨hreserved.2.2 vector hmem, hid, htenantId, hscalars, htexts,
      (hdimensions vector hmem).ne', hsome,
      fun source hsource => ?_, fun source hsource => ?_, hnodupSources⟩
    · -- A source is a column, and columns have safe names.
      have hmem := hdeclared source hsource
      simp only [sourceNames, List.mem_cons, List.mem_append] at hmem
      rcases hmem with rfl | rfl | h | h
      · exact hprimary
      · exact htenant
      · exact hsafeScalar source h
      · exact hsafeText source h
    · have hmem := hdeclared source hsource
      simp only [sourceNames, List.mem_cons, List.mem_append] at hmem
      rcases hmem with h | h | h | h <;> simp [h]

/-- A schema passes exactly when it is valid. -/
theorem validate_iff : schema.validate = .ok () ↔ schema.Valid := ⟨.of_validate, Valid.validate⟩

end TableSchema

end TraceDB
