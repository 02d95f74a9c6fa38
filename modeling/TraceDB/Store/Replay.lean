import Mathlib.Data.List.Induction
import TraceDB.Store.Tips

/-!
# Replaying commits

Recovery replays a commit by another path than the one that made it: with the schemas of the end of
the run, all records of a batch before any of its feature invalidations, and by applying where the
live handle planned.  This file has the facts under which the two paths agree.

* `TableSchema.SameWrites` : two schemas of a table under which record writes do the same, so that
  a commit may be replayed under either (`applyCommit_congr`).
* `IsDirtyAt` : a feature that the write itself left dirty at the epoch of its commit; the
  invalidation that the commit carries for it changes nothing (`replayInvalidations_of_dirty`).
* `applyReplacements_dirty` : after a batch the version of a key is the one of its last record.
-/

namespace TraceDB

variable {sourceHash : Fields → List String → ℕ} {epoch : Epoch}

/-! ### Features by name -/

theorem featureFor_congr {mutation : RecordInput} {merged : Fields} {features features' : Features}
    {vector : VectorColumnSchema} (h : features[vector.name]? = features'[vector.name]?) :
    featureFor sourceHash mutation merged epoch features vector =
      featureFor sourceHash mutation merged epoch features' vector := by
  simp only [featureFor, h]

/-- Columns of different names do not see each other. -/
theorem getElem?_foldl_featureFor (mutation : RecordInput) (merged : Fields)
    {vectors : List VectorColumnSchema} (hnodup : (vectors.map (·.name)).Nodup)
    (features : Features) (name : String) :
    (vectors.foldl (fun features vector => features.insert vector.name
        (featureFor sourceHash mutation merged epoch features vector)) features)[name]? =
      match vectors.find? fun vector => vector.name = name with
      | some vector => some (featureFor sourceHash mutation merged epoch features vector)
      | none => features[name]? := by
  induction vectors generalizing features with
  | nil => rfl
  | cons vector vectors ih =>
    rw [List.map_cons, List.nodup_cons] at hnodup
    rw [List.foldl_cons, ih hnodup.2, List.find?_cons]
    by_cases hname : vector.name = name
    · have hnone : vectors.find? (fun v => decide (v.name = name)) = none := by
        rw [List.find?_eq_none]
        intro v hv heq
        exact hnodup.1 (List.mem_map.2 ⟨v, hv, (of_decide_eq_true heq).trans hname.symm⟩)
      simp [hnone, hname]
    · simp only [hname, decide_false]
      cases hfind : vectors.find? (fun v => decide (v.name = name)) with
      | none => simp [Std.ExtTreeMap.getElem?_insert, hname]
      | some v =>
        have hv : v.name = name := by simpa using List.find?_some hfind
        simp only
        rw [featureFor_congr]
        simp [Std.ExtTreeMap.getElem?_insert, hv, hname]

theorem getElem?_buildFeatures {schema : TableSchema}
    (hnodup : (schema.vectorColumns.map (·.name)).Nodup) (mutation : RecordInput)
    (merged : Fields) (previous : Option StoredRecord) (name : String) :
    (buildFeatures sourceHash schema mutation merged previous epoch)[name]? =
      match schema.vectorColumns.find? fun vector => vector.name = name with
      | some vector => some (featureFor sourceHash mutation merged epoch
          ((previous.map (·.features)).getD ∅) vector)
      | none => ((previous.map (·.features)).getD ∅)[name]? :=
  getElem?_foldl_featureFor mutation merged hnodup _ name

/-! ### Schemas under which writes do the same -/

/-- Two schemas of one table that agree on what record writes depend on. -/
structure TableSchema.SameWrites (schema schema' : TableSchema) : Prop where
  name : schema.name = schema'.name
  primaryIdColumn : schema.primaryIdColumn = schema'.primaryIdColumn
  tenantIdColumn : schema.tenantIdColumn = schema'.tenantIdColumn
  vectorColumns : schema.vectorColumns.Perm schema'.vectorColumns

theorem validateVectorColumnsOf_ok {mutation : RecordInput} {vectors : List VectorColumnSchema} :
    validateVectorColumnsOf mutation vectors = .ok () ↔
      ∀ vector ∈ vectors, ∀ value, mutation.fields[vector.name]? = some value →
        value.vectorDimensionCount.getD 0 = vector.dimensions := by
  induction vectors with
  | nil => simp [validateVectorColumnsOf]
  | cons vector vectors ih =>
    rw [List.forall_mem_cons, ← ih, validateVectorColumnsOf]
    cases mutation.fields[vector.name]? with
    | none => simp
    | some value =>
      simp only [Except.guard_eq_ok_iff, not_not, Option.some.injEq, forall_eq']

namespace TableSchema.SameWrites

variable {schema schema' : TableSchema}

theorem validateRecordIdentity (h : schema.SameWrites schema') (input : RecordInput)
    (fields : Option Fields) :
    TraceDB.validateRecordIdentity schema input fields =
      TraceDB.validateRecordIdentity schema' input fields := by
  simp only [TraceDB.validateRecordIdentity, h.primaryIdColumn, h.tenantIdColumn]

theorem validateVectorDimensions (h : schema.SameWrites schema') {input : RecordInput}
    (hok : TraceDB.validateVectorDimensions schema input = .ok ()) :
    TraceDB.validateVectorDimensions schema' input = .ok () := by
  rw [TraceDB.validateVectorDimensions, validateVectorColumnsOf_ok] at hok ⊢
  exact fun vector hmem => hok vector (h.vectorColumns.mem_iff.2 hmem)

theorem buildFeatures (h : schema.SameWrites schema')
    (hnodup : (schema.vectorColumns.map (·.name)).Nodup) (input : RecordInput) (merged : Fields)
    (previous : Option StoredRecord) :
    TraceDB.buildFeatures sourceHash schema input merged previous epoch =
      TraceDB.buildFeatures sourceHash schema' input merged previous epoch := by
  have hnodup' : (schema'.vectorColumns.map (·.name)).Nodup :=
    (h.vectorColumns.map _).nodup_iff.1 hnodup
  refine Std.ExtTreeMap.ext_getElem? fun name => ?_
  have hfind : (schema.vectorColumns.find? fun vector => vector.name = name) =
      schema'.vectorColumns.find? fun vector => vector.name = name := by
    refine Option.ext fun vector => ?_
    rw [List.find?_key_eq_some hnodup, List.find?_key_eq_some hnodup', h.vectorColumns.mem_iff]
  rw [getElem?_buildFeatures hnodup, getElem?_buildFeatures hnodup', hfind]

theorem buildReplacementRecord (h : schema.SameWrites schema')
    (hnodup : (schema.vectorColumns.map (·.name)).Nodup) {input : RecordInput}
    {record : StoredRecord}
    (hok : TraceDB.buildReplacementRecord sourceHash schema input epoch = .ok record) :
    TraceDB.buildReplacementRecord sourceHash schema' input epoch = .ok record := by
  simp only [TraceDB.buildReplacementRecord, Except.bind_eq_ok_iff, Except.guard_eq_ok_iff] at hok ⊢
  obtain ⟨_, hid, _, hdim, htenant, _, hid', heq⟩ := hok
  rw [h.validateRecordIdentity] at hid hid'
  rw [h.primaryIdColumn, h.tenantIdColumn] at hid' heq
  rw [h.buildFeatures hnodup] at heq
  exact ⟨_, hid, _, h.validateVectorDimensions hdim, htenant, _, hid', heq⟩

theorem buildMutationRecord (h : schema.SameWrites schema')
    (hnodup : (schema.vectorColumns.map (·.name)).Nodup) {input : RecordInput}
    {previous : Option StoredRecord} {record : StoredRecord}
    (hok : TraceDB.buildMutationRecord sourceHash schema input previous epoch = .ok record) :
    TraceDB.buildMutationRecord sourceHash schema' input previous epoch = .ok record := by
  have hmerged : mergedFields schema input previous = mergedFields schema' input previous := by
    simp only [mergedFields, h.primaryIdColumn, h.tenantIdColumn]
  simp only [TraceDB.buildMutationRecord, Except.bind_eq_ok_iff, Except.guard_eq_ok_iff] at hok ⊢
  obtain ⟨_, hid, _, hdim, htenant, _, hid', heq⟩ := hok
  rw [h.validateRecordIdentity] at hid hid'
  rw [hmerged] at hid' heq
  rw [h.buildFeatures hnodup] at heq
  exact ⟨_, hid, _, h.validateVectorDimensions hdim, htenant, _, hid', heq⟩

theorem replaceVersions (h : schema.SameWrites schema')
    (hnodup : (schema.vectorColumns.map (·.name)).Nodup) {input : RecordInput}
    {versions versions' : Versions}
    (hok : TraceDB.replaceVersions sourceHash schema input epoch versions = .ok versions') :
    TraceDB.replaceVersions sourceHash schema' input epoch versions = .ok versions' := by
  simp only [TraceDB.replaceVersions, Except.bind_eq_ok_iff] at hok ⊢
  obtain ⟨record, hbuild, heq⟩ := hok
  exact ⟨record, h.buildReplacementRecord hnodup hbuild, heq⟩

theorem mutateVersions (h : schema.SameWrites schema')
    (hnodup : (schema.vectorColumns.map (·.name)).Nodup) {input : RecordInput}
    {versions versions' : Versions}
    (hok : TraceDB.mutateVersions sourceHash schema input epoch versions = .ok versions') :
    TraceDB.mutateVersions sourceHash schema' input epoch versions = .ok versions' := by
  simp only [TraceDB.mutateVersions, Except.bind_eq_ok_iff] at hok ⊢
  obtain ⟨record, hbuild, heq⟩ := hok
  exact ⟨record, h.buildMutationRecord hnodup hbuild, heq⟩

end TableSchema.SameWrites

/-- The tables a commit writes records of. -/
def CommitRecord.tables (commit : CommitRecord) : List String :=
  commit.replacements.map (·.table) ++ commit.mutations.map (·.table) ++
    commit.deletions.map (·.table)

/-- The schemas agree, as far as record writes go, on the tables of a list. -/
def SameWritesOn (tables : List String) (schemas schemas' : List TableSchema) : Prop :=
  ∀ table ∈ tables, ∀ schema, tableOrUnknown schemas table = .ok schema →
    (schema.vectorColumns.map (·.name)).Nodup ∧
      ∃ schema', tableOrUnknown schemas' table = .ok schema' ∧ schema.SameWrites schema'

/-- A write that succeeds with the schemas of its table succeeds with those that agree. -/
theorem SameWritesOn.write {tables : List String} {schemas schemas' : List TableSchema}
    (h : SameWritesOn tables schemas schemas') {table : String} (hmem : table ∈ tables)
    {store store' : RecordStore} {key : String} (write : TableSchema → Versions → Result Versions)
    (hwrite : ∀ schema schema' versions versions', schema.SameWrites schema' →
      (schema.vectorColumns.map (·.name)).Nodup → write schema versions = .ok versions' →
        write schema' versions = .ok versions')
    (hok : (do
      let schema ← tableOrUnknown schemas table
      store.applyAt key (write schema)) = .ok store') :
    (do
      let schema ← tableOrUnknown schemas' table
      store.applyAt key (write schema)) = .ok store' := by
  rw [Except.bind_eq_ok_iff] at hok ⊢
  obtain ⟨schema, hschema, happly⟩ := hok
  obtain ⟨hnodup, schema', hschema', hsame⟩ := h table hmem schema hschema
  obtain ⟨versions, hversions, rfl⟩ := RecordStore.applyAt_eq_ok happly
  refine ⟨schema', hschema', ?_⟩
  rw [RecordStore.applyAt, hwrite _ _ _ _ hsame hnodup hversions]
  rfl

/-- **A commit may be replayed under schemas that agree on its tables.** -/
theorem applyCommit_congr {schemas schemas' : List TableSchema} {commit : CommitRecord}
    (h : SameWritesOn commit.tables schemas schemas') {store store' : RecordStore}
    (hok : store.applyCommit sourceHash schemas commit = .ok store') :
    store.applyCommit sourceHash schemas' commit = .ok store' := by
  simp only [RecordStore.applyCommit, Except.bind_eq_ok_iff] at hok ⊢
  obtain ⟨s₁, h₁, s₂, h₂, s₃, h₃, h₄⟩ := hok
  refine ⟨s₁, Except.foldlM_congr_ok h₁ ?_, s₂, Except.foldlM_congr_ok h₂ ?_, s₃,
    Except.foldlM_congr_ok h₃ ?_, h₄⟩
  · intro s input s' hmem hs
    have htable : input.table ∈ commit.tables := by
      simp only [CommitRecord.tables, List.mem_append, List.mem_map]
      exact .inl (.inl ⟨input, hmem, rfl⟩)
    refine h.write htable (fun schema => replaceVersions sourceHash schema input commit.epoch) ?_ hs
    exact fun _ _ _ _ hsame hnodup => hsame.replaceVersions hnodup
  · intro s input s' hmem hs
    have htable : input.table ∈ commit.tables := by
      simp only [CommitRecord.tables, List.mem_append, List.mem_map]
      exact .inl (.inr ⟨input, hmem, rfl⟩)
    refine h.write htable (fun schema => mutateVersions sourceHash schema input commit.epoch) ?_ hs
    exact fun _ _ _ _ hsame hnodup => hsame.mutateVersions hnodup
  · intro s deletion s' hmem hs
    have htable : deletion.table ∈ commit.tables := by
      simp only [CommitRecord.tables, List.mem_append, List.mem_map]
      exact .inr ⟨deletion, hmem, rfl⟩
    refine h.write htable (fun schema => deleteVersions schema deletion commit.epoch) ?_ hs
    intro schema schema' versions versions' hsame _ hdelete
    simp only [deleteVersions, validateDeletionIdentity, ← hsame.name] at hdelete ⊢
    exact hdelete

/-! ### The tables of a store -/

/-- The store has an entry for a record of the table. -/
def RecordStore.HoldsTable (store : RecordStore) (table : String) : Prop :=
  ∃ tenantId id, store.versions[recordKey table tenantId id]? ≠ none

theorem RecordStore.HoldsTable.applyAt {store store' : RecordStore} {table key : String}
    (h : store.HoldsTable table) {write : Versions → Result Versions}
    (happly : store.applyAt key write = .ok store') : store'.HoldsTable table := by
  obtain ⟨tenantId, id, hkey⟩ := h
  obtain ⟨versions, -, rfl⟩ := applyAt_eq_ok happly
  refine ⟨tenantId, id, ?_⟩
  rw [getElem?_set]
  split_ifs
  · simp
  · exact hkey

theorem RecordStore.holdsTable_of_applyAt {store store' : RecordStore}
    {table tenantId id : String} {write : Versions → Result Versions}
    (happly : store.applyAt (recordKey table tenantId id) write = .ok store') :
    store'.HoldsTable table := by
  obtain ⟨versions, -, rfl⟩ := applyAt_eq_ok happly
  exact ⟨tenantId, id, by simp⟩

/-- A loop over record writes keeps the tables of the store and adds those it writes to. -/
theorem holdsTable_of_writes {α : Type} {schemas : List TableSchema} {xs : List α}
    (table tenantId id : α → String) (write : α → TableSchema → Versions → Result Versions)
    {store store' : RecordStore}
    (h : xs.foldlM (fun (s : RecordStore) x => do
      let schema ← tableOrUnknown schemas (table x)
      s.applyAt (recordKey (table x) (tenantId x) (id x)) (write x schema)) store = .ok store') :
    (∀ t, store.HoldsTable t → store'.HoldsTable t) ∧
      ∀ t ∈ xs.map table, store'.HoldsTable t := by
  constructor
  · intro t ht
    refine Except.foldlM_invariant (I := fun s : RecordStore => s.HoldsTable t) h ht ?_
    intro s x s' _ hs hx
    obtain ⟨schema, -, happly⟩ := Except.bind_eq_ok_iff.1 hx
    exact hs.applyAt happly
  · intro t ht
    obtain ⟨x, hx, rfl⟩ := List.mem_map.1 ht
    refine Except.foldlM_establishes
      (P := fun x (s : RecordStore) => s.HoldsTable (table x)) h ?_ ?_ x hx
    · intro s x s' hx
      obtain ⟨schema, -, happly⟩ := Except.bind_eq_ok_iff.1 hx
      exact RecordStore.holdsTable_of_applyAt happly
    · intro s x s' y hx hs
      obtain ⟨schema, -, happly⟩ := Except.bind_eq_ok_iff.1 hx
      exact hs.applyAt happly

theorem holdsTable_of_applyCommit {schemas : List TableSchema} {commit : CommitRecord}
    {store store' : RecordStore} (h : store.applyCommit sourceHash schemas commit = .ok store') :
    (∀ table, store.HoldsTable table → store'.HoldsTable table) ∧
      ∀ table ∈ commit.tables, store'.HoldsTable table := by
  simp only [RecordStore.applyCommit, Except.bind_eq_ok_iff] at h
  obtain ⟨s₁, h₁, s₂, h₂, s₃, h₃, h₄⟩ := h
  obtain ⟨hkeep₁, hdone₁⟩ := holdsTable_of_writes RecordInput.table RecordInput.tenantId
    RecordInput.id (fun input schema => replaceVersions sourceHash schema input commit.epoch) h₁
  obtain ⟨hkeep₂, hdone₂⟩ := holdsTable_of_writes RecordInput.table RecordInput.tenantId
    RecordInput.id (fun input schema => mutateVersions sourceHash schema input commit.epoch) h₂
  obtain ⟨hkeep₃, hdone₃⟩ := holdsTable_of_writes RecordDeletion.table
    RecordDeletion.tenantId RecordDeletion.id
      (fun deletion schema => deleteVersions schema deletion commit.epoch) h₃
  have hkeep₄ : ∀ t, s₃.HoldsTable t → store'.HoldsTable t := by
    intro t ht
    refine Except.foldlM_invariant (I := fun s : RecordStore => s.HoldsTable t) h₄ ht ?_
    intro s inv s' _ hs hinv
    unfold RecordStore.replayInvalidation at hinv
    split_ifs at hinv
    · obtain ⟨resolved, -, happly⟩ := Except.bind_eq_ok_iff.1 hinv
      exact hs.applyAt happly
    · exact hs.applyAt hinv
  refine ⟨fun t ht => hkeep₄ t (hkeep₃ t (hkeep₂ t (hkeep₁ t ht))), fun t ht => ?_⟩
  rcases List.mem_append.1 ht with hleft | hdeleted
  · rcases List.mem_append.1 hleft with hreplaced | hmutated
    · exact hkeep₄ t (hkeep₃ t (hkeep₂ t (hdone₁ t hreplaced)))
    · exact hkeep₄ t (hkeep₃ t (hdone₂ t hmutated))
  · exact hkeep₄ t (hdone₃ t hdeleted)

/-- Every table that a log writes to is a table of the store it rebuilds. -/
theorem holdsTable_of_applyCommits {schemas : List TableSchema} {commits : List CommitRecord}
    {store store' : RecordStore} (h : store.applyCommits sourceHash schemas commits = .ok store') :
    ∀ commit ∈ commits, ∀ table ∈ commit.tables, store'.HoldsTable table := by
  refine Except.foldlM_establishes
    (P := fun (commit : CommitRecord) (s : RecordStore) => ∀ table ∈ commit.tables,
      s.HoldsTable table) h ?_ ?_
  · exact fun s commit s' hcommit => (holdsTable_of_applyCommit hcommit).2
  · exact fun s commit s' other hcommit hs table htable =>
      (holdsTable_of_applyCommit hcommit).1 table (hs table htable)

/-! ### Invalidations of features that are dirty already -/

/-- The feature of the live version of a key is dirty as of an epoch. -/
def IsDirtyAt (store : RecordStore) (key feature : String) (epoch : Epoch) : Prop :=
  ∃ older record state, store.versions[key]? = some (older ++ [record]) ∧ record.isLive = true ∧
    record.features[feature]? = some state ∧ state.status = .dirty ∧ state.validForEpoch = epoch

/-- The invalidation of such a feature changes nothing. -/
theorem IsDirtyAt.replayInvalidation {store : RecordStore} {commit : CommitRecord}
    {invalidation : FeatureInvalidation}
    (h : IsDirtyAt store
      (recordKey invalidation.table invalidation.tenantId invalidation.recordId)
      invalidation.feature commit.epoch) (htenant : Text.isBlank invalidation.tenantId = false)
    (hstatus : invalidation.status = .dirty) :
    store.replayInvalidation commit invalidation = .ok store := by
  obtain ⟨older, record, state, hget, hlive, hfeature, hdirty, hepoch⟩ := h
  have hsame : record.setFeature invalidation.feature .dirty commit.epoch = record := by
    have hfeatures : record.features.insert invalidation.feature
        { state with status := .dirty, validForEpoch := commit.epoch } = record.features := by
      refine Std.ExtTreeMap.ext_getElem? fun name => ?_
      rw [Std.ExtTreeMap.getElem?_insert]
      split_ifs with hname
      · rw [← Std.LawfulEqCmp.eq_of_compare hname, hfeature, ← hdirty, ← hepoch]
      · rfl
    simp only [StoredRecord.setFeature, hfeature, hfeatures]
  have hwrite : invalidateVersions invalidation commit.epoch (older ++ [record]) =
      .ok (older ++ [record]) := by
    have hcontains : record.features.contains invalidation.feature = true := by
      rw [Std.ExtTreeMap.contains_eq_isSome_getElem?, hfeature]
      rfl
    simp only [invalidateVersions, List.findLast?_append_singleton, hlive, if_true, hcontains,
      List.modifyLastWhere_append_of_pos _ _ hlive, hstatus, hsame]
  have hset : ∀ key versions, store.versions[key]? = some versions →
      store.set key versions = store := by
    intro key versions hkey
    refine RecordStore.ext fun key' => ?_
    rw [RecordStore.getElem?_set]
    split_ifs with heq
    · rw [← heq, hkey]
    · rfl
  simp only [RecordStore.replayInvalidation, htenant, Bool.false_eq_true, if_false, Except.ok_bind,
    RecordStore.applyFeatureInvalidation, RecordStore.applyAt, RecordStore.versionsAt, hget,
    Option.getD_some, hwrite, hset _ _ hget]

theorem replayInvalidations_of_dirty {store : RecordStore} {commit : CommitRecord}
    {invalidations : List FeatureInvalidation}
    (h : ∀ invalidation ∈ invalidations,
      IsDirtyAt store (recordKey invalidation.table invalidation.tenantId invalidation.recordId)
          invalidation.feature commit.epoch ∧
        Text.isBlank invalidation.tenantId = false ∧ invalidation.status = .dirty) :
    invalidations.foldlM (RecordStore.replayInvalidation commit) store = .ok store := by
  induction invalidations with
  | nil => rfl
  | cons invalidation invalidations ih =>
    obtain ⟨hdirty, htenant, hstatus⟩ := h invalidation List.mem_cons_self
    rw [List.foldlM_cons, hdirty.replayInvalidation htenant hstatus]
    exact ih fun inv hmem => h inv (List.mem_cons_of_mem _ hmem)

/-- The columns a write makes dirty: it changes a source, and does not bring the vector. -/
def dirtiedColumns (schema : TableSchema) (input : RecordInput) : List VectorColumnSchema :=
  schema.vectorColumns.filter fun vector => !input.fields.contains vector.name &&
    vector.sourceColumns.any fun source => input.fields.contains source

/-- What `buildFeatures` gives to such a column. -/
theorem buildFeatures_dirty (sourceHash : Fields → List String → ℕ) {schema : TableSchema}
    (hnodup : (schema.vectorColumns.map (·.name)).Nodup) {input : RecordInput} (merged : Fields)
    (previous : Option StoredRecord) {vector : VectorColumnSchema}
    (hmem : vector ∈ dirtiedColumns schema input) :
    ∃ state, (buildFeatures sourceHash schema input merged previous epoch)[vector.name]? =
      some state ∧ state.status = .dirty ∧ state.validForEpoch = epoch := by
  obtain ⟨hcolumn, hdirty⟩ := List.mem_filter.1 hmem
  obtain ⟨habsent, hsource⟩ := Bool.and_eq_true_iff.1 hdirty
  rw [getElem?_buildFeatures hnodup, (List.find?_key_eq_some hnodup).2 ⟨hcolumn, rfl⟩]
  refine ⟨_, rfl, ?_⟩
  simp only [Bool.not_eq_true'] at habsent
  simp only [featureFor, habsent, Bool.false_eq_true, if_false, hsource, if_true]
  cases ((previous.map (·.features)).getD ∅)[vector.name]? with
  | none => exact ⟨rfl, rfl⟩
  | some state => exact ⟨rfl, rfl⟩

/-- After a write that appends `record`, the features the write made dirty are so in the store. -/
theorem isDirtyAt_set {store : RecordStore} {key : String} {older : Versions}
    {record : StoredRecord} {schema : TableSchema}
    (hnodup : (schema.vectorColumns.map (·.name)).Nodup) {input : RecordInput} {merged : Fields}
    {previous : Option StoredRecord} (hlive : record.isLive = true)
    (hfeatures : record.features = buildFeatures sourceHash schema input merged previous epoch)
    {vector : VectorColumnSchema} (hmem : vector ∈ dirtiedColumns schema input) :
    IsDirtyAt (store.set key (older ++ [record])) key vector.name epoch := by
  obtain ⟨state, hstate, hdirty, hepoch⟩ :=
    buildFeatures_dirty sourceHash hnodup merged previous hmem
  refine ⟨older, record, state, by simp, hlive, ?_, hdirty, hepoch⟩
  rw [hfeatures]
  exact hstate

theorem isLive_of_newHeader {record : StoredRecord} {table tenantId id : String}
    (h : record.header = newHeader table tenantId id epoch) : record.isLive = true := by
  simp [StoredRecord.isLive, StoredRecord.isCurrent, h, newHeader]

theorem buildReplacementRecord_features {schema : TableSchema} {input : RecordInput}
    {record : StoredRecord}
    (h : buildReplacementRecord sourceHash schema input epoch = .ok record) :
    ∃ merged, record.features = buildFeatures sourceHash schema input merged none epoch := by
  simp only [buildReplacementRecord, Except.bind_eq_ok_iff, Except.guard_eq_ok_iff] at h
  obtain ⟨_, _, _, _, _, _, _, h⟩ := h
  obtain rfl := Except.ok.inj h
  exact ⟨_, rfl⟩

theorem buildMutationRecord_features {schema : TableSchema} {input : RecordInput}
    {previous : Option StoredRecord} {record : StoredRecord}
    (h : buildMutationRecord sourceHash schema input previous epoch = .ok record) :
    ∃ merged, record.features = buildFeatures sourceHash schema input merged previous epoch := by
  simp only [buildMutationRecord, Except.bind_eq_ok_iff, Except.guard_eq_ok_iff] at h
  obtain ⟨_, _, _, _, _, _, _, h⟩ := h
  obtain rfl := Except.ok.inj h
  exact ⟨_, rfl⟩

/-! ### Batches -/

/-- The key of a record input. -/
def RecordInput.key (input : RecordInput) : String :=
  recordKey input.table input.tenantId input.id

/-- A replacement leaves the features it made dirty so. -/
theorem applyReplacement_dirty {store store' : RecordStore} {schema : TableSchema}
    (hnodup : (schema.vectorColumns.map (·.name)).Nodup) {input : RecordInput}
    (happly : store.applyReplacement sourceHash schema input epoch = .ok store')
    {vector : VectorColumnSchema} (hmem : vector ∈ dirtiedColumns schema input) :
    IsDirtyAt store' input.key vector.name epoch := by
  obtain ⟨versions, hversions, rfl⟩ := RecordStore.applyAt_eq_ok happly
  rw [replaceVersions, Except.bind_eq_ok_iff] at hversions
  obtain ⟨record, hbuild, heq⟩ := hversions
  obtain rfl := Except.ok.inj heq
  obtain ⟨merged, hfeatures⟩ := buildReplacementRecord_features hbuild
  exact isDirtyAt_set hnodup (isLive_of_newHeader (buildReplacementRecord_header hbuild)) hfeatures
    hmem

theorem applyMutation_dirty {store store' : RecordStore} {schema : TableSchema}
    (hnodup : (schema.vectorColumns.map (·.name)).Nodup) {input : RecordInput}
    (happly : store.applyMutation sourceHash schema input epoch = .ok store')
    {vector : VectorColumnSchema} (hmem : vector ∈ dirtiedColumns schema input) :
    IsDirtyAt store' input.key vector.name epoch := by
  obtain ⟨versions, hversions, rfl⟩ := RecordStore.applyAt_eq_ok happly
  rw [mutateVersions, Except.bind_eq_ok_iff] at hversions
  obtain ⟨record, hbuild, heq⟩ := hversions
  obtain rfl := Except.ok.inj heq
  obtain ⟨merged, hfeatures⟩ := buildMutationRecord_features hbuild
  exact isDirtyAt_set hnodup (isLive_of_newHeader (buildMutationRecord_header hbuild)) hfeatures
    hmem

/-- The loop over the replacements of a commit. -/
def applyReplacements (sourceHash : Fields → List String → ℕ) (schemas : List TableSchema)
    (epoch : Epoch) (store : RecordStore) (inputs : List RecordInput) : Result RecordStore :=
  inputs.foldlM (fun store input => do
    let schema ← tableOrUnknown schemas input.table
    store.applyReplacement sourceHash schema input epoch) store

/-- **After a batch the features of a key are those of its last record**, so far as it made them
dirty. -/
theorem applyReplacements_dirty {schemas : List TableSchema} {inputs : List RecordInput}
    (hnodup : ∀ table schema, tableOrUnknown schemas table = .ok schema →
      (schema.vectorColumns.map (·.name)).Nodup)
    {store store' : RecordStore}
    (happly : applyReplacements sourceHash schemas epoch store inputs = .ok store')
    {key : String} {last : RecordInput}
    (hlast : inputs.findLast? (fun input => decide (input.key = key)) = some last)
    {schema : TableSchema} (hschema : tableOrUnknown schemas last.table = .ok schema)
    {vector : VectorColumnSchema} (hmem : vector ∈ dirtiedColumns schema last) :
    IsDirtyAt store' key vector.name epoch := by
  induction inputs using List.reverseRecOn generalizing store' with
  | nil => cases hlast
  | append_singleton inputs input ih =>
    rw [applyReplacements, Except.foldlM_append, Except.bind_eq_ok_iff] at happly
    obtain ⟨middle, hinputs, hinput⟩ := happly
    simp only [List.foldlM_cons, List.foldlM_nil, Except.bind_eq_ok_iff] at hinput
    obtain ⟨final, ⟨schema', hschema', hfinal⟩, heq⟩ := hinput
    obtain rfl : final = store' := Except.ok.inj heq
    rw [List.findLast?_append_singleton] at hlast
    by_cases hkey : input.key = key
    · simp only [hkey, decide_true, if_true] at hlast
      obtain rfl := Option.some.inj hlast
      obtain rfl := Except.ok.inj (hschema'.symm.trans hschema)
      rw [← hkey]
      exact applyReplacement_dirty (hnodup _ _ hschema) hfinal hmem
    · simp only [hkey, decide_false, Bool.false_eq_true, if_false] at hlast
      obtain ⟨older, record, state, hget, hrest⟩ := ih hinputs hlast
      obtain ⟨versions, -, rfl⟩ := RecordStore.applyAt_eq_ok hfinal
      have hother : recordKey input.table input.tenantId input.id ≠ key := hkey
      refine ⟨older, record, state, ?_, hrest⟩
      rw [RecordStore.getElem?_set, if_neg hother, hget]

end TraceDB
