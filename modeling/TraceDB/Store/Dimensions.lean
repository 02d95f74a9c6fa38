import TraceDB.Store.Live

/-!
# Dimensions of stored vectors

A write is checked against the schema of its table: a value under a vector column is an array of
numbers of the declared length.  A mutation is checked alone, before it is merged into the live
version of its key.

* `StoredRecord.FitsSchema` : the vectors of a record have the dimensions of a schema.
* `RecordStore.LiveFits` : all live versions fit the schemas of their tables.
* `LiveFits.applyAll` : writes by the schemas of their tables keep this.
-/

namespace TraceDB

variable {sourceHash : Fields → List String → ℕ}

/-- The record has, under every vector column of the schema, no value or a vector of the declared
dimensions. -/
def StoredRecord.FitsSchema (schema : TableSchema) (record : StoredRecord) : Prop :=
  ∀ vector ∈ schema.vectorColumns, ∀ value, record.fields[vector.name]? = some value →
    value.vectorDimensionCount = some vector.dimensions

/-- The same of the fields of a record. -/
def TableSchema.DimensionsOf (schema : TableSchema) (fields : Fields) : Prop :=
  ∀ vector ∈ schema.vectorColumns, ∀ value, fields[vector.name]? = some value →
    value.vectorDimensionCount = some vector.dimensions

/-! ### Validated schemas -/

theorem validateVectorColumns_dimensions {schema : TableSchema}
    {scalarColumns textColumns seen : List String} {vectors : List VectorColumnSchema}
    (h : schema.validateVectorColumns scalarColumns textColumns seen vectors = .ok ()) :
    ∀ vector ∈ vectors, vector.dimensions ≠ 0 := by
  induction vectors generalizing seen with
  | nil => simp
  | cons vector vectors ih =>
    simp only [TableSchema.validateVectorColumns, Except.bind_eq_ok_iff,
      Except.guard_eq_ok_iff] at h
    obtain ⟨name, -, -, _, hvector, h⟩ := h
    simp only [TableSchema.validateVectorColumn, Except.bind_eq_ok_iff,
      Except.guard_eq_ok_iff] at hvector
    obtain ⟨_, -, _, -, _, -, -, -, hdimensions, -⟩ := hvector
    intro other hother
    rcases List.mem_cons.1 hother with rfl | hother
    · exact hdimensions
    · exact ih h other hother

/-- A vector column has at least one dimension. -/
theorem TableSchema.dimensions_ne_zero {schema : TableSchema} (h : schema.validate = .ok ()) :
    ∀ vector ∈ schema.vectorColumns, vector.dimensions ≠ 0 := by
  simp only [validate, Except.bind_eq_ok_iff, Except.guard_eq_ok_iff] at h
  obtain ⟨_, -, _, -, _, -, -, _, -, _, -, _, -, _, -, h⟩ := h
  exact validateVectorColumns_dimensions h

/-- The check of a write: its own vectors have the declared dimensions. -/
theorem validateVectorDimensions_ok {schema : TableSchema} {mutation : RecordInput}
    (hschema : ∀ vector ∈ schema.vectorColumns, vector.dimensions ≠ 0)
    (h : validateVectorDimensions schema mutation = .ok ()) :
    ∀ vector ∈ schema.vectorColumns, ∀ value, mutation.fields[vector.name]? = some value →
      value.vectorDimensionCount = some vector.dimensions := by
  unfold validateVectorDimensions at h
  generalize schema.vectorColumns = vectors at h hschema ⊢
  induction vectors with
  | nil => simp
  | cons vector vectors ih =>
    have hrest := fun v hv => hschema v (List.mem_cons_of_mem _ hv)
    intro other hother value hvalue
    cases hfield : mutation.fields[vector.name]? with
    | none =>
      simp only [validateVectorColumnsOf, hfield] at h
      rcases List.mem_cons.1 hother with rfl | hother
      · rw [hfield] at hvalue
        cases hvalue
      · exact ih h hrest other hother value hvalue
    | some found =>
      simp only [validateVectorColumnsOf, hfield, Except.guard_eq_ok_iff, not_not] at h
      rcases List.mem_cons.1 hother with rfl | hother
      · obtain rfl := Option.some.inj (hfield.symm.trans hvalue)
        -- No dimensions are counted as none, which no column has.
        cases hcount : found.vectorDimensionCount with
        | none =>
          rw [hcount] at h
          exact absurd h.1.symm (hschema other List.mem_cons_self)
        | some n =>
          rw [hcount] at h
          exact congrArg some h.1
      · exact ih h.2 hrest other hother value hvalue

/-! ### New versions -/

/-- A column that is not one of the identity columns comes from the mutation or the version
before. -/
theorem getElem?_mergedFields_of_ne {schema : TableSchema} {mutation : RecordInput}
    {previous : Option StoredRecord} {column : String} (hid : column ≠ schema.primaryIdColumn)
    (htenant : column ≠ schema.tenantIdColumn) :
    (mergedFields schema mutation previous)[column]? = carried mutation previous column := by
  have hfill : ∀ (fields : Fields) (other text : String), column ≠ other →
      (if fields.contains other then fields else fields.insert other (.string text))[column]? =
        fields[column]? := by
    intro fields other text hne
    split_ifs
    · rfl
    · rw [Std.ExtTreeMap.getElem?_insert, if_neg]
      simpa using Ne.symm hne
  simp only [mergedFields, hfill _ _ _ hid, hfill _ _ _ htenant, getElem?_carried]

theorem buildReplacementRecord_fits {schema : TableSchema} {input : RecordInput} {epoch : Epoch}
    {record : StoredRecord} (hschema : schema.validate = .ok ())
    (h : buildReplacementRecord sourceHash schema input epoch = .ok record) :
      record.FitsSchema schema := by
  simp only [buildReplacementRecord, Except.bind_eq_ok_iff, Except.guard_eq_ok_iff] at h
  obtain ⟨_, -, ⟨⟩, hdimensions, -, _, -, h⟩ := h
  obtain rfl := Except.ok.inj h
  intro vector hvector value hvalue
  obtain ⟨hid, htenant⟩ := (TableSchema.validate_spec hschema).vectorNotId vector hvector
  rw [Std.ExtTreeMap.getElem?_insert, if_neg (by simpa using Ne.symm htenant),
    Std.ExtTreeMap.getElem?_insert, if_neg (by simpa using Ne.symm hid)] at hvalue
  exact validateVectorDimensions_ok (TableSchema.dimensions_ne_zero hschema)
    hdimensions vector hvector
    value hvalue

theorem buildMutationRecord_fits {schema : TableSchema} {mutation : RecordInput}
    {previous : Option StoredRecord} {epoch : Epoch} {record : StoredRecord}
    (hschema : schema.validate = .ok ())
    (hprevious : ∀ old, previous = some old → old.FitsSchema schema)
    (h : buildMutationRecord sourceHash schema mutation previous epoch = .ok record) :
    record.FitsSchema schema := by
  simp only [buildMutationRecord, Except.bind_eq_ok_iff, Except.guard_eq_ok_iff] at h
  obtain ⟨_, -, ⟨⟩, hdimensions, -, _, -, h⟩ := h
  obtain rfl := Except.ok.inj h
  intro vector hvector value hvalue
  obtain ⟨hid, htenant⟩ := (TableSchema.validate_spec hschema).vectorNotId vector hvector
  rw [getElem?_mergedFields_of_ne hid htenant, carried] at hvalue
  cases hfield : mutation.fields[vector.name]? with
  | some own =>
    rw [hfield] at hvalue
    obtain rfl := Option.some.inj hvalue
    exact validateVectorDimensions_ok (TableSchema.dimensions_ne_zero hschema)
      hdimensions vector hvector
      own hfield
  | none =>
    rw [hfield, Option.none_or] at hvalue
    obtain ⟨old, hold, hvalue⟩ := Option.bind_eq_some_iff.1 hvalue
    exact hprevious old hold vector hvector value hvalue

/-! ### Stores -/

namespace RecordStore

/-- Every live version fits the schema of its table. -/
def LiveFits (schemas : List TableSchema) (store : RecordStore) : Prop :=
  ∀ key, ∀ record ∈ store.versionsAt key, record.isLive = true →
    ∀ schema, findTable schemas record.header.tableId = some schema → record.FitsSchema schema

variable {schemas : List TableSchema} {store store' : RecordStore} {write : StoreWrite}

/-- What a write by the schema of its table builds fits the schema. -/
theorem builds_fits (hschemas : ∀ schema ∈ schemas, schema.validate = .ok ())
    (hwrite : write.InSchemas schemas) :
    write.Builds sourceHash TableSchema.DimensionsOf := by
  cases write with
  | replace schema input epoch =>
    exact fun record hnew => buildReplacementRecord_fits
      (hschemas _ (List.mem_of_find?_eq_some hwrite)) hnew
  | mutate schema mutation epoch =>
    exact fun previous record hprevious hnew =>
      buildMutationRecord_fits (hschemas _ (List.mem_of_find?_eq_some hwrite)) hprevious hnew
  | delete schema deletion epoch => exact trivial
  | invalidate invalidation epoch => exact trivial

/-- **Writes by the schemas of their tables keep the dimensions.** -/
theorem LiveFits.applyAll {writes : List StoreWrite} (h : store.LiveFits schemas)
    (htables : store.TablesKnown schemas) (hschemas : ∀ schema ∈ schemas, schema.validate = .ok ())
    (hwrites : ∀ write ∈ writes, write.InSchemas schemas)
    (happly : store.applyAll sourceHash writes = .ok store') :
    store'.LiveFits schemas ∧ store'.TablesKnown schemas :=
  LiveHolds.applyAll (P := TableSchema.DimensionsOf) h htables hschemas
    (fun write hwrite => ⟨hwrites write hwrite, builds_fits hschemas (hwrites write hwrite)⟩) happly

end RecordStore

end TraceDB
