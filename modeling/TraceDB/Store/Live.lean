import TraceDB.Store.Planning

/-!
# Live versions

A write builds a new version of one record, or ends or changes one; all other live versions stay.
So a property of the fields of the live versions is kept when it holds of the fields that a write
builds.

* `StoreWrite.live_of_mem` : the live versions after a write.
* `RecordStore.LiveHolds` : the fields of every live version have a property of the schema of its
  table.
* `LiveHolds.apply`, `LiveHolds.applyAll` : writes by the schemas of their tables keep this.
-/

namespace TraceDB

variable {sourceHash : Fields → List String → ℕ}

/-! ### Versions -/

theorem StoredRecord.setFeature_fields (record : StoredRecord) (feature : String)
    (status : FeatureStatus) (epoch : Epoch) :
      (record.setFeature feature status epoch).fields = record.fields := by
  unfold setFeature
  split <;> rfl

/-- The live versions after a write: they were there with the same fields, or the write has built
them. -/
theorem StoreWrite.live_of_mem {write : StoreWrite} {versions versions' : Versions}
    (h : write.onVersions sourceHash versions = .ok versions') {record : StoredRecord}
    (hmem : record ∈ versions') (hlive : record.isLive = true) :
    (∃ old ∈ versions, old.isLive = true ∧ old.triple = record.triple ∧
      old.fields = record.fields) ∨
      (∃ schema input epoch, write = .replace schema input epoch ∧
        buildReplacementRecord sourceHash schema input epoch = .ok record) ∨
      ∃ schema mutation epoch, write = .mutate schema mutation epoch ∧
        buildMutationRecord sourceHash schema mutation
          (versions.findLast? StoredRecord.isLive) epoch =
          .ok record := by
  -- What was ended is not live, so the live ones among the old versions are untouched.
  have hold : ∀ {p : StoredRecord → Bool} {epoch : Epoch},
      record ∈ versions.modifyLastWhere p (·.endAt epoch) →
        ∃ old ∈ versions, old.isLive = true ∧ old.triple = record.triple ∧
        old.fields = record.fields := by
    intro p epoch hm
    rcases List.mem_modifyLastWhere hm with hm | ⟨old, -, -, rfl⟩
    · exact ⟨record, hm, hlive, rfl, rfl⟩
    · cases hlive
  cases write with
  | replace schema input epoch =>
    simp only [onVersions, replaceVersions, Except.bind_eq_ok_iff] at h
    obtain ⟨new, hnew, h⟩ := h
    obtain rfl := Except.ok.inj h
    rcases List.mem_append.1 hmem with hm | hm
    · exact .inl (hold hm)
    · obtain rfl := List.mem_singleton.1 hm
      exact .inr (.inl ⟨schema, input, epoch, rfl, hnew⟩)
  | mutate schema mutation epoch =>
    simp only [onVersions, mutateVersions, Except.bind_eq_ok_iff] at h
    obtain ⟨new, hnew, h⟩ := h
    obtain rfl := Except.ok.inj h
    rcases List.mem_append.1 hmem with hm | hm
    · exact .inl (hold hm)
    · obtain rfl := List.mem_singleton.1 hm
      exact .inr (.inr ⟨schema, mutation, epoch, rfl, hnew⟩)
  | delete schema deletion epoch =>
    simp only [onVersions, deleteVersions, Except.bind_eq_ok_iff] at h
    obtain ⟨_, -, h⟩ := h
    split at h
    · cases h
    · obtain rfl := Except.ok.inj h
      rcases List.mem_append.1 hmem with hm | hm
      · exact .inl (hold hm)
      · obtain rfl := List.mem_singleton.1 hm
        cases hlive
  | invalidate invalidation epoch =>
    simp only [onVersions, invalidateVersions] at h
    split at h
    · cases h
    · split_ifs at h
      obtain rfl := Except.ok.inj h
      rcases List.mem_modifyLastWhere hmem with hm | ⟨old, hm, hold', rfl⟩
      · exact .inl ⟨record, hm, hlive, rfl, rfl⟩
      · exact .inl ⟨old, hm, hold', (old.triple_setFeature _ _ _).symm,
          (old.setFeature_fields _ _ _).symm⟩

/-- The fields of a mutation are its own, those of the version before, or the identity of the
record. -/
theorem mergedFields_cases {schema : TableSchema} {mutation : RecordInput}
    {previous : Option StoredRecord} {name : String} {value : Value}
    (h : (mergedFields schema mutation previous)[name]? = some value) :
    (∃ s, value = .string s) ∨ carried mutation previous name = some value := by
  have hcarried := getElem?_carried mutation previous name
  have hfill : ∀ {fields : Fields} {column text : String},
      (if fields.contains column then fields else fields.insert column (.string text))[name]? =
        some value →
        (∃ s, value = .string s) ∨ fields[name]? = some value := by
    intro fields column text hfilled
    split_ifs at hfilled
    · exact .inr hfilled
    · rw [Std.ExtTreeMap.getElem?_insert] at hfilled
      split_ifs at hfilled
      · exact .inl ⟨text, (Option.some.inj hfilled).symm⟩
      · exact .inr hfilled
  rcases hfill h with hs | h
  · exact .inl hs
  · rcases hfill h with hs | h
    · exact .inl hs
    · exact .inr (hcarried ▸ h)

/-! ### Properties of live versions -/

namespace StoreWrite

/-- What a write builds has a property, if what it builds on has. -/
def Builds (sourceHash : Fields → List String → ℕ) (P : TableSchema → Fields → Prop) :
    StoreWrite → Prop
  | .replace schema input epoch => ∀ record,
    buildReplacementRecord sourceHash schema input epoch = .ok record →
      P schema record.fields
  | .mutate schema mutation epoch => ∀ previous record,
    (∀ old, previous = some old → P schema old.fields) →
      buildMutationRecord sourceHash schema mutation previous epoch = .ok record →
      P schema record.fields
  | _ => True

end StoreWrite

namespace RecordStore

/-- The versions of a store are of tables that have a schema. -/
abbrev TablesKnown (schemas : List TableSchema) (store : RecordStore) : Prop :=
  store.Holds fun t => (findTable schemas t.table).isSome = true

/-- The fields of every live version have a property of the schema of its table. -/
def LiveHolds (P : TableSchema → Fields → Prop) (schemas : List TableSchema) (store : RecordStore) :
    Prop :=
  ∀ key, ∀ record ∈ store.versionsAt key, record.isLive = true →
    ∀ schema, findTable schemas record.header.tableId = some schema → P schema record.fields

variable {P : TableSchema → Fields → Prop} {schemas : List TableSchema} {store store' : RecordStore}
  {write : StoreWrite}

theorem hasSchema_of_findTable (hschemas : ∀ schema ∈ schemas, schema.validate = .ok ())
    {table : String} (h : (findTable schemas table).isSome = true) :
      RecordTriple.HasSchema table := by
  obtain ⟨schema, hfind⟩ := Option.isSome_iff_exists.1 h
  exact ⟨schema, by simpa using List.find?_some hfind,
    hschemas schema (List.mem_of_find?_eq_some hfind)⟩

/-- Versions under one key are of one table. -/
theorem TablesKnown.table_eq (h : store.TablesKnown schemas)
    (hschemas : ∀ schema ∈ schemas, schema.validate = .ok ()) {target : RecordTriple}
    (htarget : (findTable schemas target.table).isSome = true) {old : StoredRecord}
    (hold : old ∈ store.versionsAt target.key) : old.header.tableId = target.table := by
  rw [versionsAt] at hold
  cases hget : store.versions[target.key]? with
  | none => simp [hget] at hold
  | some versions =>
    rw [hget, Option.getD_some] at hold
    obtain ⟨hkey, hknown⟩ := h _ versions hget old hold
    exact ((RecordTriple.key_eq_iff (hasSchema_of_findTable hschemas hknown)
      (hasSchema_of_findTable hschemas htarget)).1 hkey).1

theorem isSome_of_inSchemas (h : write.InSchemas schemas) :
    (findTable schemas write.target.table).isSome = true := by
  cases write with
  | replace schema input epoch => exact Option.isSome_iff_exists.2 ⟨schema, h⟩
  | mutate schema input epoch => exact Option.isSome_iff_exists.2 ⟨schema, h⟩
  | delete schema deletion epoch => exact Option.isSome_iff_exists.2 ⟨schema, h⟩
  | invalidate invalidation epoch => exact h

/-- **A write** by the schema of its table keeps the property, if what it builds has it. -/
theorem LiveHolds.apply (h : store.LiveHolds P schemas) (htables : store.TablesKnown schemas)
    (hschemas : ∀ schema ∈ schemas, schema.validate = .ok ()) (hwrite : write.InSchemas schemas)
    (hbuilds : write.Builds sourceHash P) (happly : write.apply sourceHash store = .ok store') :
    store'.LiveHolds P schemas := by
  rw [StoreWrite.apply_eq] at happly
  obtain ⟨versions, hversions, rfl⟩ := applyAt_eq_ok happly
  intro key record hmem hlive schema hschema
  rw [versionsAt_set] at hmem
  split_ifs at hmem with hkey
  · rcases StoreWrite.live_of_mem hversions hmem hlive with
      ⟨old, hold, holdlive, htriple, hfields⟩ | ⟨own, input, epoch, rfl, hnew⟩ |
        ⟨own, mutation, epoch, rfl, hnew⟩
    · have htable : old.header.tableId = record.header.tableId := congrArg (·.table) htriple
      have hP := h _ old hold holdlive schema (htable ▸ hschema)
      rwa [hfields] at hP
    · have htable : record.header.tableId = input.table :=
        by rw [buildReplacementRecord_spec hnew]; rfl
      obtain rfl := Option.some.inj ((htable ▸ hschema).symm.trans hwrite)
      exact hbuilds record hnew
    · have htable : record.header.tableId = mutation.table :=
        by rw [buildMutationRecord_spec hnew]; rfl
      obtain rfl := Option.some.inj ((htable ▸ hschema).symm.trans hwrite)
      refine hbuilds _ record ?_ hnew
      intro old hfind
      have hold := List.mem_of_findLast? hfind
      have holdtable := htables.table_eq hschemas (isSome_of_inSchemas hwrite) hold
      exact h _ old hold (List.prop_of_findLast? hfind) _ (by rw [holdtable]; exact hwrite)
  · exact h key record hmem hlive schema hschema

/-- Writes one after the other. -/
theorem LiveHolds.applyAll {writes : List StoreWrite} (h : store.LiveHolds P schemas)
    (htables : store.TablesKnown schemas) (hschemas : ∀ schema ∈ schemas, schema.validate = .ok ())
    (hwrites : ∀ write ∈ writes, write.InSchemas schemas ∧ write.Builds sourceHash P)
    (happly : store.applyAll sourceHash writes = .ok store') :
    store'.LiveHolds P schemas ∧ store'.TablesKnown schemas := by
  refine Except.foldlM_invariant (I := fun store => store.LiveHolds P schemas ∧
    store.TablesKnown schemas) happly ⟨h, htables⟩ fun store₁ write store₂ hwrite hinv happly₁ => ?_
  obtain ⟨hin, hbuilds⟩ := hwrites write hwrite
  exact ⟨hinv.1.apply hinv.2 hschemas hin hbuilds happly₁,
    hinv.2.apply (isSome_of_inSchemas hin) happly₁⟩

end RecordStore

end TraceDB
