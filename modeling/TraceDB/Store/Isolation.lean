import Mathlib.Algebra.Order.BigOperators.Group.List
import TraceDB.Store.Basic

/-!
# Isolation of record keys

All tables and tenants share one map, keyed by `table NUL tenant NUL id`.  This file says what that
encoding separates.

* `RecordTriple.Collides` : two triples with the same key.  The table is an identifier, so the
  key splits after it; tenant and id are not checked for NUL, so the rest may split in two ways.
* `RecordStore.Holds` : every version is stored under the key of its own header, and the triple of
  that header was written before; kept by every write (`Holds.run`).
* `store_isolation` : writes to one triple leave the other alone exactly when the two do not
  collide, and scans are exact when no tenant id with a NUL was written.
-/

namespace TraceDB

/-- A table, a tenant and a record id. -/
structure RecordTriple where
  table : String
  tenantId : String
  id : String
  deriving DecidableEq

/-- A text without NUL. -/
def NulFree (s : String) : Prop := Char.ofNat 0 ∉ s.toList

instance (s : String) : Decidable (NulFree s) := inferInstanceAs (Decidable (¬ _))

namespace RecordTriple

/-- The key of a triple. -/
def key (t : RecordTriple) : String := recordKey t.table t.tenantId t.id

/-- The table has a schema that passed validation. -/
def HasSchema (table : String) : Prop :=
  ∃ schema : TableSchema, schema.name = table ∧ schema.validate = .ok ()

/-- What identity validation lets through: a table with a schema, a tenant and an id that are not
empty. -/
structure Valid (t : RecordTriple) : Prop where
  hasSchema : HasSchema t.table
  tenantId_ne : t.tenantId ≠ ""
  id_ne : t.id ≠ ""

/-- Two triples of one table whose tenant and id, joined by NUL, are the same text. -/
def Collides (a b : RecordTriple) : Prop :=
  a.table = b.table ∧ a.tenantId ++ "\x00" ++ a.id = b.tenantId ++ "\x00" ++ b.id

instance (a b : RecordTriple) : Decidable (a.Collides b) := inferInstanceAs (Decidable (_ ∧ _))

end RecordTriple

/-- The triple a version belongs to. -/
def StoredRecord.triple (record : StoredRecord) : RecordTriple :=
  ⟨record.header.tableId, record.header.tenantId, record.header.recordId⟩

/-- A write to the store. -/
inductive StoreWrite where
  | replace (schema : TableSchema) (input : RecordInput) (epoch : Epoch)
  | mutate (schema : TableSchema) (mutation : RecordInput) (epoch : Epoch)
  | delete (schema : TableSchema) (deletion : RecordDeletion) (epoch : Epoch)
  | invalidate (invalidation : FeatureInvalidation) (epoch : Epoch)

namespace StoreWrite

/-- The triple a write is about. -/
def target : StoreWrite → RecordTriple
  | .replace _ input _ => ⟨input.table, input.tenantId, input.id⟩
  | .mutate _ mutation _ => ⟨mutation.table, mutation.tenantId, mutation.id⟩
  | .delete _ deletion _ => ⟨deletion.table, deletion.tenantId, deletion.id⟩
  | .invalidate invalidation _ =>
    ⟨invalidation.table, invalidation.tenantId, invalidation.recordId⟩

variable (sourceHash : Fields → List String → ℕ)

/-- What a write does to the versions of its key. -/
def onVersions : StoreWrite → Versions → Result Versions
  | .replace schema input epoch => replaceVersions sourceHash schema input epoch
  | .mutate schema mutation epoch => mutateVersions sourceHash schema mutation epoch
  | .delete schema deletion epoch => deleteVersions schema deletion epoch
  | .invalidate invalidation epoch => invalidateVersions invalidation epoch

/-- `apply_replacement`, `apply_mutation`, `apply_delete` or `apply_feature_invalidation`. -/
def apply (store : RecordStore) : StoreWrite → Result RecordStore
  | .replace schema input epoch => store.applyReplacement sourceHash schema input epoch
  | .mutate schema mutation epoch => store.applyMutation sourceHash schema mutation epoch
  | .delete schema deletion epoch => store.applyDelete schema deletion epoch
  | .invalidate invalidation epoch => store.applyFeatureInvalidation invalidation epoch

end StoreWrite

namespace RecordStore

variable (sourceHash : Fields → List String → ℕ)

/-- A sequence of writes; a write that is refused changes nothing. -/
def runWrites (store : RecordStore) (writes : List StoreWrite) : RecordStore :=
  writes.foldl (fun store write =>
    match write.apply sourceHash store with
    | .ok store' => store'
    | .error _ => store) store

/-- Every version is stored under its own key, and its triple satisfies `P`. -/
def Holds (P : RecordTriple → Prop) (store : RecordStore) : Prop :=
  ∀ (key : String) (versions : Versions), store.versions[key]? = some versions →
    ∀ record ∈ versions, record.triple.key = key ∧ P record.triple

/-- What the reads return for one triple is the same in two stores, at every epoch. -/
def SameFor (t : RecordTriple) (store store' : RecordStore) : Prop :=
  ∀ epoch, store'.getRecord t.table t.tenantId t.id epoch =
      store.getRecord t.table t.tenantId t.id epoch ∧
    ∀ table tenantId record, record.triple = t →
      (record ∈ store'.visibleRecordsAt table tenantId epoch ↔
        record ∈ store.visibleRecordsAt table tenantId epoch)

end RecordStore

/-! ### Keys -/

theorem nulFree_of_hasSchema {table : String} (h : RecordTriple.HasSchema table) :
    NulFree table := by
  obtain ⟨schema, rfl, hvalid⟩ := h
  exact not_mem_of_isGraphqlSafeIdentifier (TableSchema.validate_spec hvalid).safeName

theorem toList_recordKeyPrefix (table tenantId : String) :
    (recordKeyPrefix table tenantId).toList =
      table.toList ++ Char.ofNat 0 :: (tenantId.toList ++ [Char.ofNat 0]) := by
  have hnul : ("\x00" : String).toList = [Char.ofNat 0] := by decide
  simp only [recordKeyPrefix, String.toList_append, hnul, List.append_assoc, List.cons_append,
    List.nil_append]

theorem toList_recordKey (table tenantId id : String) :
    (recordKey table tenantId id).toList =
      table.toList ++ Char.ofNat 0 :: (tenantId.toList ++ Char.ofNat 0 :: id.toList) := by
  simp only [recordKey, String.toList_append, toList_recordKeyPrefix, List.append_assoc,
    List.cons_append, List.nil_append]

theorem toList_join (tenantId id : String) :
    (tenantId ++ "\x00" ++ id).toList = tenantId.toList ++ Char.ofNat 0 :: id.toList := by
  have hnul : ("\x00" : String).toList = [Char.ofNat 0] := by decide
  simp only [String.toList_append, hnul, List.append_assoc, List.singleton_append]

/-- Two triples with tables that have schemas share their key exactly when they collide. -/
theorem RecordTriple.key_eq_iff {a b : RecordTriple} (ha : HasSchema a.table)
    (hb : HasSchema b.table) : a.key = b.key ↔ a.Collides b := by
  rw [key, key, Collides, ← String.toList_inj, toList_recordKey, toList_recordKey,
    ← String.toList_inj, ← String.toList_inj, toList_join, toList_join]
  constructor
  · exact Text.append_sep_inj (nulFree_of_hasSchema ha) (nulFree_of_hasSchema hb)
  · rintro ⟨htable, hrest⟩
    rw [htable, hrest]

/-- When table and tenant of a stored triple are free of NUL, and so are its id or the arguments of
the scan, its key has the scan's prefix only if table and tenant are the arguments. -/
theorem eq_of_prefix {t : RecordTriple} {table tenantId : String}
    (htable : NulFree t.table) (htenant : NulFree t.tenantId)
    (hid : NulFree t.id ∨ NulFree table ∧ NulFree tenantId)
    (hpre : (recordKeyPrefix table tenantId).toList <+: t.key.toList) :
    t.table = table ∧ t.tenantId = tenantId := by
  obtain ⟨rest, heq⟩ := hpre
  rw [toList_recordKeyPrefix, RecordTriple.key, toList_recordKey] at heq
  simp only [List.append_assoc, List.cons_append, List.nil_append] at heq
  have hargs : NulFree table ∧ NulFree tenantId := by
    rcases hid with hid | hargs
    · -- The key has two NULs, and the prefix has two besides those in the arguments.
      have hcount := congrArg (List.count (Char.ofNat 0)) heq
      simp only [List.count_append, List.count_cons_self, List.count_eq_zero.2 htable,
        List.count_eq_zero.2 htenant, List.count_eq_zero.2 hid] at hcount
      exact ⟨List.count_eq_zero.1 (by omega), List.count_eq_zero.1 (by omega)⟩
    · exact hargs
  obtain ⟨h₁, hrest⟩ := Text.append_sep_inj hargs.1 htable heq
  obtain ⟨h₂, -⟩ := Text.append_sep_inj hargs.2 htenant hrest
  exact ⟨String.toList_inj.1 h₁.symm, String.toList_inj.1 h₂.symm⟩

/-! ### One write -/

variable {sourceHash : Fields → List String → ℕ}

@[simp] theorem StoredRecord.triple_endAt (record : StoredRecord) (epoch : Epoch) :
    (record.endAt epoch).triple = record.triple := rfl

@[simp] theorem StoredRecord.triple_setFeature (record : StoredRecord) (feature : String)
    (status : FeatureStatus) (epoch : Epoch) :
    (record.setFeature feature status epoch).triple = record.triple := by
  unfold StoredRecord.setFeature
  split <;> rfl

theorem StoreWrite.apply_eq (store : RecordStore) (write : StoreWrite) :
    write.apply sourceHash store =
      store.applyAt write.target.key (write.onVersions sourceHash) := by
  cases write <;> rfl

theorem buildReplacementRecord_spec {schema : TableSchema} {input : RecordInput} {epoch : Epoch}
    {record : StoredRecord}
    (h : buildReplacementRecord sourceHash schema input epoch = .ok record) :
    record.header = newHeader input.table input.tenantId input.id epoch := by
  simp only [buildReplacementRecord, Except.bind_eq_ok_iff, Except.guard_eq_ok_iff] at h
  obtain ⟨_, _, _, _, _, _, _, h⟩ := h
  obtain rfl := Except.ok.inj h
  rfl

theorem buildMutationRecord_spec {schema : TableSchema} {mutation : RecordInput}
    {previous : Option StoredRecord} {epoch : Epoch} {record : StoredRecord}
    (h : buildMutationRecord sourceHash schema mutation previous epoch = .ok record) :
    record.header = newHeader mutation.table mutation.tenantId mutation.id epoch := by
  simp only [buildMutationRecord, Except.bind_eq_ok_iff, Except.guard_eq_ok_iff] at h
  obtain ⟨_, _, _, _, _, _, _, h⟩ := h
  obtain rfl := Except.ok.inj h
  rfl

/-- The versions after a write are versions of the triple written and versions that were there. -/
theorem StoreWrite.triple_of_mem {write : StoreWrite} {versions versions' : Versions}
    (h : write.onVersions sourceHash versions = .ok versions') {record : StoredRecord}
    (hmem : record ∈ versions') :
    record.triple = write.target ∨ ∃ old ∈ versions, record.triple = old.triple := by
  -- A version list that was searched from the end and changed at one place keeps its triples.
  have hmod : ∀ (p : StoredRecord → Bool) (f : StoredRecord → StoredRecord),
      (∀ r, (f r).triple = r.triple) → record ∈ versions.modifyLastWhere p f →
      ∃ old ∈ versions, record.triple = old.triple := by
    intro p f hf hm
    rcases List.mem_modifyLastWhere hm with hm | ⟨old, hold, -, rfl⟩
    · exact ⟨record, hm, rfl⟩
    · exact ⟨old, hold, hf old⟩
  cases write with
  | replace schema input epoch =>
    simp only [onVersions, replaceVersions, Except.bind_eq_ok_iff] at h
    obtain ⟨new, hnew, h⟩ := h
    obtain rfl := Except.ok.inj h
    rcases List.mem_append.1 hmem with hm | hm
    · exact .inr (hmod _ _ (fun r => r.triple_endAt epoch) hm)
    · obtain rfl := List.mem_singleton.1 hm
      exact .inl (by simp [StoredRecord.triple, buildReplacementRecord_spec hnew,
        newHeader, target])
  | mutate schema mutation epoch =>
    simp only [onVersions, mutateVersions, Except.bind_eq_ok_iff] at h
    obtain ⟨new, hnew, h⟩ := h
    obtain rfl := Except.ok.inj h
    rcases List.mem_append.1 hmem with hm | hm
    · exact .inr (hmod _ _ (fun r => r.triple_endAt epoch) hm)
    · obtain rfl := List.mem_singleton.1 hm
      exact .inl (by simp [StoredRecord.triple, buildMutationRecord_spec hnew, newHeader, target])
  | delete schema deletion epoch =>
    simp only [onVersions, deleteVersions, Except.bind_eq_ok_iff] at h
    obtain ⟨_, _, h⟩ := h
    split at h
    · cases h
    · obtain rfl := Except.ok.inj h
      rcases List.mem_append.1 hmem with hm | hm
      · exact .inr (hmod _ _ (fun r => r.triple_endAt epoch) hm)
      · obtain rfl := List.mem_singleton.1 hm
        exact .inl rfl
  | invalidate invalidation epoch =>
    simp only [onVersions, invalidateVersions] at h
    split at h
    · cases h
    · split at h
      · obtain rfl := Except.ok.inj h
        exact .inr (hmod _ _ (fun r => r.triple_setFeature _ _ _) hmem)
      · cases h

namespace RecordStore

variable {P : RecordTriple → Prop}

theorem holds_empty : Holds P empty := by
  intro key versions h
  simp [empty] at h

theorem Holds.apply {store store' : RecordStore} {write : StoreWrite} (hs : Holds P store)
    (hP : P write.target) (h : write.apply sourceHash store = .ok store') : Holds P store' := by
  rw [StoreWrite.apply_eq] at h
  obtain ⟨versions', hwrite, rfl⟩ := applyAt_eq_ok h
  intro key versions hkey record hmem
  rw [getElem?_set] at hkey
  split_ifs at hkey with heq
  · obtain rfl := Option.some.inj hkey
    subst heq
    rcases StoreWrite.triple_of_mem hwrite hmem with htriple | ⟨old, hold, htriple⟩
    · exact ⟨by rw [htriple], by rw [htriple]; exact hP⟩
    · rw [versionsAt] at hold
      cases hget : store.versions[write.target.key]? with
      | none => simp [hget] at hold
      | some versions =>
        simp only [hget, Option.getD_some] at hold
        rw [htriple]
        exact hs _ _ hget old hold
  · exact hs key versions hkey record hmem

/-- Whole runs of writes keep every version under its own key. -/
theorem Holds.run {store : RecordStore} (hs : Holds P store) {writes : List StoreWrite}
    (hP : ∀ write ∈ writes, P write.target) : Holds P (store.runWrites sourceHash writes) := by
  induction writes generalizing store with
  | nil => exact hs
  | cons write writes ih =>
    have hrest : ∀ write ∈ writes, P write.target := fun w hw => hP w (List.mem_cons_of_mem _ hw)
    rw [runWrites, List.foldl_cons]
    cases happly : write.apply sourceHash store with
    | error e => exact ih hs hrest
    | ok store' => exact ih (hs.apply (hP _ List.mem_cons_self) happly) hrest

/-- Writes to one key leave the versions of the other keys alone. -/
theorem getElem?_runWrites {store : RecordStore} {writes : List StoreWrite} {key : String}
    (h : ∀ write ∈ writes, write.target.key ≠ key) :
    (store.runWrites sourceHash writes).versions[key]? = store.versions[key]? := by
  induction writes generalizing store with
  | nil => rfl
  | cons write writes ih =>
    have hrest : ∀ write ∈ writes, write.target.key ≠ key :=
      fun w hw => h w (List.mem_cons_of_mem _ hw)
    rw [runWrites, List.foldl_cons]
    cases happly : write.apply sourceHash store with
    | error e => exact ih hrest
    | ok store' =>
      rw [StoreWrite.apply_eq] at happly
      obtain ⟨versions, -, rfl⟩ := applyAt_eq_ok happly
      have hone : (store.set write.target.key versions).versions[key]? = store.versions[key]? := by
        rw [getElem?_set, if_neg (h _ List.mem_cons_self)]
      exact (ih hrest).trans hone

/-- Writes to a triple with another key are not seen. -/
theorem sameFor_runWrites {store : RecordStore} (hs : Holds P store) (hP : ∀ t, P t)
    {writes : List StoreWrite} {t : RecordTriple} (h : ∀ write ∈ writes, write.target.key ≠ t.key) :
    SameFor t store (store.runWrites sourceHash writes) := by
  have hkey : (store.runWrites sourceHash writes).versions[t.key]? = store.versions[t.key]? :=
    getElem?_runWrites h
  intro epoch
  refine ⟨?_, fun table tenantId record htriple => ?_⟩
  · simp only [getRecord]
    rw [show recordKey t.table t.tenantId t.id = t.key from rfl, hkey]
  · -- In both stores a version of `t` can only come from the key of `t`.
    have honly : ∀ {store' : RecordStore}, Holds P store' →
        (record ∈ store'.visibleRecordsAt table tenantId epoch ↔
          ∃ versions, store'.versions[t.key]? = some versions ∧
            (recordKeyPrefix table tenantId).toList <+: t.key.toList ∧
            visibleRecordAt versions epoch = some record) := by
      intro store' hs'
      rw [mem_visibleRecordsAt]
      constructor
      · rintro ⟨key, versions, hget, hpre, hvisible⟩
        have := (hs' key versions hget record (List.mem_of_findLast? hvisible)).1
        rw [htriple] at this
        subst this
        exact ⟨versions, hget, hpre, hvisible⟩
      · rintro ⟨versions, hget, hpre, hvisible⟩
        exact ⟨t.key, versions, hget, hpre, hvisible⟩
    rw [honly hs, honly (hs.run fun write _ => hP _), hkey]

end RecordStore

/-! ### The main result -/

theorem buildReplacementRecord_no_fields {schema : TableSchema} (hschema : schema.WellFormed)
    {t : RecordTriple} (ht : t.Valid) (epoch : Epoch) :
    ∃ record, buildReplacementRecord sourceHash schema ⟨t.table, t.id, t.tenantId, ∅⟩ epoch =
      .ok record := by
  have hvectors : ∀ vectors : List VectorColumnSchema,
      validateVectorColumnsOf ⟨t.table, t.id, t.tenantId, ∅⟩ vectors = .ok () := by
    intro vectors
    induction vectors with
    | nil => rfl
    | cons vector vectors ih => simpa [validateVectorColumnsOf] using ih
  have hfirst : validateRecordIdentity schema ⟨t.table, t.id, t.tenantId, ∅⟩ none = .ok () := by
    simp [validateRecordIdentity, ht.id_ne, ht.tenantId_ne]
  have hid : (((∅ : Fields).insert schema.primaryIdColumn (.string t.id)).insert
      schema.tenantIdColumn (.string t.tenantId))[schema.primaryIdColumn]? =
      some (.string t.id) := by
    rw [Std.ExtTreeMap.getElem?_insert, if_neg, Std.ExtTreeMap.getElem?_insert_self]
    simpa using hschema.idNotTenant.symm
  have hsecond : validateRecordIdentity schema ⟨t.table, t.id, t.tenantId, ∅⟩
      (some (((∅ : Fields).insert schema.primaryIdColumn (.string t.id)).insert
        schema.tenantIdColumn (.string t.tenantId))) = .ok () := by
    simp only [validateRecordIdentity, ht.id_ne, ht.tenantId_ne, if_false, Option.getD_some, hid,
      Std.ExtTreeMap.getElem?_insert_self, Option.any_some, Value.asStr, ne_eq, not_true_eq_false,
      decide_false, Bool.false_eq_true]
  simp only [buildReplacementRecord, hfirst, validateVectorDimensions, hvectors, Except.ok_bind,
    ht.tenantId_ne, if_false, hsecond]
  exact ⟨_, rfl⟩

/-- A write to a colliding triple is seen. -/
theorem not_sameFor_of_collides {store : RecordStore} {a b : RecordTriple} (ha : a.Valid)
    (hkey : a.key = b.key) :
    ∃ writes, (∀ write ∈ writes, write.target = a) ∧
      ¬ RecordStore.SameFor b store (store.runWrites sourceHash writes) := by
  obtain ⟨schema, hname, hvalid⟩ := ha.hasSchema
  -- The write is at an epoch after all those of the versions that are there.
  obtain ⟨epoch, hepoch⟩ : ∃ epoch, ∀ record ∈ store.versionsAt b.key,
      record.header.beginEpoch < epoch := by
    refine ⟨((store.versionsAt b.key).map fun r => r.header.beginEpoch).sum + 1, fun r hr => ?_⟩
    exact Nat.lt_succ_of_le (List.single_le_sum (by simp) _ (List.mem_map_of_mem hr))
  obtain ⟨record, hrecord⟩ : ∃ record, buildReplacementRecord sourceHash schema
      ⟨a.table, a.id, a.tenantId, ∅⟩ epoch = .ok record :=
    buildReplacementRecord_no_fields (TableSchema.validate_spec hvalid) ha epoch
  have hheader := buildReplacementRecord_spec hrecord
  refine ⟨[.replace schema ⟨a.table, a.id, a.tenantId, ∅⟩ epoch], by simp [StoreWrite.target], ?_⟩
  have hrun : store.runWrites sourceHash [.replace schema ⟨a.table, a.id, a.tenantId, ∅⟩ epoch] =
      store.set b.key (closeCurrent epoch (store.versionsAt b.key) ++ [record]) := by
    have happly : StoreWrite.apply sourceHash store
        (.replace schema ⟨a.table, a.id, a.tenantId, ∅⟩ epoch) =
        .ok (store.set b.key (closeCurrent epoch (store.versionsAt b.key) ++ [record])) := by
      rw [StoreWrite.apply_eq, ← hkey]
      simp only [RecordStore.applyAt, StoreWrite.onVersions, replaceVersions, hrecord,
        Except.ok_bind]
      rfl
    simp only [RecordStore.runWrites, List.foldl_cons, List.foldl_nil, happly]
  intro hsame
  have hget := (hsame epoch).1
  have hvisible : record.isVisible epoch = true := by
    simp [StoredRecord.isVisible, StoredRecord.spans, hheader, newHeader]
  rw [hrun, RecordStore.getRecord, show recordKey b.table b.tenantId b.id = b.key from rfl,
    RecordStore.getElem?_set, if_pos rfl, Option.bind_some, RecordStore.visibleRecordAt,
    List.findLast?_append_singleton, if_pos hvisible] at hget
  obtain ⟨versions, hversions, hfound⟩ := Option.bind_eq_some_iff.1 hget.symm
  have hold : record ∈ store.versionsAt b.key := by
    rw [RecordStore.versionsAt, show store.versions[b.key]? = some versions from hversions]
    exact List.mem_of_findLast? hfound
  have := hepoch record hold
  simp [hheader, newHeader] at this

/-- **Key isolation**, in every store that a run of writes to tables with schemas has built.  Writes
to one valid triple leave what is read for another one alone exactly when the two do not collide.
Scans return only records of their table and tenant when no tenant id with a NUL was written, and
neither was an id with a NUL, or the arguments have none. -/
theorem store_isolation {writes : List StoreWrite}
    (hw : ∀ write ∈ writes, RecordTriple.HasSchema write.target.table) :
    (∀ a b : RecordTriple, a.Valid → b.Valid → a ≠ b →
      ((∀ more : List StoreWrite, (∀ write ∈ more, write.target = a) →
          RecordStore.SameFor b (RecordStore.empty.runWrites sourceHash writes)
            ((RecordStore.empty.runWrites sourceHash writes).runWrites sourceHash more)) ↔
        ¬ a.Collides b)) ∧
    ((∀ write ∈ writes, NulFree write.target.tenantId) → ∀ table tenantId,
      (∀ write ∈ writes, NulFree write.target.id) ∨ NulFree table ∧ NulFree tenantId →
      ∀ epoch, ∀ record ∈
        (RecordStore.empty.runWrites sourceHash writes).visibleRecordsAt table tenantId epoch,
        record.header.tableId = table ∧ record.header.tenantId = tenantId) := by
  refine ⟨fun a b ha hb _ => ⟨fun hsame hcollide => ?_, fun hcollide more hmore => ?_⟩, ?_⟩
  · have hkey := (RecordTriple.key_eq_iff ha.hasSchema hb.hasSchema).2 hcollide
    obtain ⟨more, hmore, hnot⟩ := not_sameFor_of_collides ha hkey
    exact hnot (hsame more hmore)
  · have hholds : RecordStore.Holds (fun _ => True)
        (RecordStore.empty.runWrites sourceHash writes) :=
      RecordStore.holds_empty.run fun _ _ => trivial
    refine RecordStore.sameFor_runWrites hholds (fun _ => trivial) fun write hmem => ?_
    rw [hmore write hmem]
    exact mt (RecordTriple.key_eq_iff ha.hasSchema hb.hasSchema).1 hcollide
  · intro htenants table tenantId hargs epoch record hmem
    obtain ⟨key, versions, hget, hpre, hvisible⟩ := RecordStore.mem_visibleRecordsAt.1 hmem
    have hholds : RecordStore.Holds (fun t => NulFree t.table ∧ NulFree t.tenantId ∧
        (NulFree t.id ∨ NulFree table ∧ NulFree tenantId))
        (RecordStore.empty.runWrites sourceHash writes) := by
      refine RecordStore.holds_empty.run fun write hwrite => ⟨?_, htenants write hwrite, ?_⟩
      · exact nulFree_of_hasSchema (hw write hwrite)
      · exact hargs.imp_left fun hids => hids write hwrite
    obtain ⟨hkey, htable, htenant, hid⟩ :=
      hholds key versions hget record (List.mem_of_findLast? hvisible)
    rw [← hkey] at hpre
    exact eq_of_prefix htable htenant hid hpre

/-- A table with an id and a tenant column. -/
def docsSchema : TableSchema := ⟨"docs", "id", "tenant", [], [], []⟩

theorem docsSchema_validate : docsSchema.validate = .ok () := by decide

theorem valid_docs {tenantId id : String} (ht : tenantId ≠ "") (hi : id ≠ "") :
    RecordTriple.Valid ⟨"docs", tenantId, id⟩ :=
  ⟨⟨docsSchema, rfl, docsSchema_validate⟩, ht, hi⟩

/-- A store with one record without NULs: writes to its triple are not seen for another record of
the same tenant, and scans of the tenant are exact. -/
theorem store_isolation_docs :
    let store := RecordStore.empty.runWrites (fun _ _ => 0)
      [.replace docsSchema ⟨"docs", "b", "a", ∅⟩ 1]
    (∀ more : List StoreWrite, (∀ write ∈ more, write.target = ⟨"docs", "a", "b"⟩) →
        RecordStore.SameFor ⟨"docs", "a", "c"⟩ store (store.runWrites (fun _ _ => 0) more)) ∧
      ∀ epoch, ∀ record ∈ store.visibleRecordsAt "docs" "a" epoch,
        record.header.tableId = "docs" ∧ record.header.tenantId = "a" := by
  have hw : ∀ write ∈ [StoreWrite.replace docsSchema ⟨"docs", "b", "a", ∅⟩ 1],
      RecordTriple.HasSchema write.target.table := by
    intro write hmem
    obtain rfl := List.mem_singleton.1 hmem
    exact ⟨docsSchema, rfl, docsSchema_validate⟩
  have hnul : ∀ write ∈ [StoreWrite.replace docsSchema ⟨"docs", "b", "a", ∅⟩ 1],
      NulFree write.target.tenantId := by
    intro write hmem
    obtain rfl := List.mem_singleton.1 hmem
    decide
  refine ⟨((store_isolation hw).1 _ _ (valid_docs ?_ ?_) (valid_docs ?_ ?_) ?_).2 ?_,
    (store_isolation hw).2 hnul "docs" "a" (.inr ?_)⟩ <;> decide

/-- Without that, isolation fails: the tenants `a NUL b` and `a` share the key of the records `c`
and `b NUL c`.  Writing the first record creates a record for the second, and a scan of tenant `a`
returns the record of the other tenant. -/
theorem store_isolation_fails_with_nul :
    let a : RecordTriple := ⟨"docs", "a\x00b", "c"⟩
    let b : RecordTriple := ⟨"docs", "a", "b\x00c"⟩
    let store := RecordStore.empty.runWrites (fun _ _ => 0)
      [.replace docsSchema ⟨a.table, a.id, a.tenantId, ∅⟩ 1]
    a.Valid ∧ b.Valid ∧ a ≠ b ∧
      RecordStore.empty.getRecord b.table b.tenantId b.id 1 = none ∧
      (store.getRecord b.table b.tenantId b.id 1).map (·.triple) = some a ∧
      (store.visibleRecordsAt "docs" "a" 1).map (·.header.tenantId) = ["a\x00b"] := by
  refine ⟨valid_docs (by decide) (by decide), valid_docs (by decide) (by decide), by decide,
    by decide, by decide, by decide⟩

end TraceDB
