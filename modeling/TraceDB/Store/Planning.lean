import TraceDB.Store.Isolation

/-!
# Planned writes and direct writes

The store writes in two ways.  A planned write computes a delta from the store and the delta so far,
and leaves both alone until `apply_delta`; a direct write edits the store as it goes.  This file has
the direct writes with the store they leave behind, also when they return an error.

* `plan_apply_refines` : planning a list of writes into one delta and installing it gives the same
  store, or fails with the same error at the same write, as the direct writes one after the other.
  A direct write that returns an error leaves the store as it was, except for a mutation that fails
  the check of its merged fields: the version it merges into is ended by then.
* `failsLate_iff` : when that happens, by the columns of the schema.
-/

namespace TraceDB

variable (sourceHash : Fields → List String → ℕ)

/-! ### Direct writes -/

/-- The checks a mutation starts with. -/
def checkMutation (schema : TableSchema) (mutation : RecordInput) : Result Unit := do
  validateRecordIdentity schema mutation none
  validateVectorDimensions schema mutation
  if mutation.tenantId = "" then .error (.invalidRecord "tenant id cannot be empty") else .ok ()

/-- The new version of a mutation that passed its checks. -/
def mutatedRecord (schema : TableSchema) (mutation : RecordInput) (previous : Option StoredRecord)
    (epoch : Epoch) : StoredRecord :=
  let fields := mergedFields schema mutation previous
  ⟨newHeader mutation.table mutation.tenantId mutation.id epoch, fields,
    buildFeatures sourceHash schema mutation fields previous epoch⟩

namespace RecordStore

variable (store : RecordStore)

/-- `apply_replacement`, with the store it leaves. -/
def applyReplacementInPlace (schema : TableSchema) (input : RecordInput) (epoch : Epoch) :
    Result StoredRecord × RecordStore :=
  match buildReplacementRecord sourceHash schema input epoch with
  | .error e => (.error e, store)
  | .ok record =>
    let key := recordKey input.table input.tenantId input.id
    (.ok record, store.set key (closeCurrent epoch (store.versionsAt key) ++ [record]))

/-- `apply_mutation`, with the store it leaves. -/
def applyMutationInPlace (schema : TableSchema) (mutation : RecordInput) (epoch : Epoch) :
    Result StoredRecord × RecordStore :=
  match checkMutation schema mutation with
  | .error e => (.error e, store)
  | .ok () =>
    let key := recordKey mutation.table mutation.tenantId mutation.id
    let versions := store.versionsAt key
    let previous := versions.findLast? StoredRecord.isLive
    -- `entry(key).or_default()` and the end of the current version come before the last check.
    let closed := closeCurrent epoch versions
    match validateRecordIdentity schema mutation (some (mergedFields schema mutation previous)) with
    | .error e => (.error e, store.set key closed)
    | .ok () =>
      let record := mutatedRecord sourceHash schema mutation previous epoch
      (.ok record, store.set key (closed ++ [record]))

/-- `apply_delete`, with the store it leaves. -/
def applyDeleteInPlace (schema : TableSchema) (deletion : RecordDeletion) (epoch : Epoch) :
    Result StoredRecord × RecordStore :=
  match validateDeletionIdentity schema deletion with
  | .error e => (.error e, store)
  | .ok () =>
    let key := recordKey deletion.table deletion.tenantId deletion.id
    match (store.versions[key]?).bind (List.findLast? StoredRecord.isLive) with
    | none => (.error (recordNotFound deletion.table deletion.tenantId deletion.id), store)
    | some previous =>
      let record := tombstoneRecord deletion previous epoch
      (.ok record, store.set key
        ((store.versionsAt key).modifyLastWhere StoredRecord.isLive (·.endAt epoch) ++ [record]))

/-- `apply_feature_invalidation`, with the store it leaves. -/
def applyFeatureInvalidationInPlace (invalidation : FeatureInvalidation) (epoch : Epoch) :
    Result DerivedFeatureState × RecordStore :=
  let key := recordKey invalidation.table invalidation.tenantId invalidation.recordId
  match (store.versions[key]?).bind (List.findLast? StoredRecord.isLive) with
  | none => (.error (recordNotFound invalidation.table invalidation.tenantId invalidation.recordId),
      store)
  | some record =>
    match record.features[invalidation.feature]? with
    | none => (.error
        (featureNotFound invalidation.table invalidation.recordId invalidation.feature), store)
    | some state =>
      (.ok { state with status := invalidation.status, validForEpoch := epoch }, store.set key
        ((store.versionsAt key).modifyLastWhere StoredRecord.isLive
          (·.setFeature invalidation.feature invalidation.status epoch)))

/-- `plan_mutation_into`. -/
def planMutationInto (delta : RecordStoreDelta) (schema : TableSchema) (mutation : RecordInput)
    (epoch : Epoch) : Result RecordStoreDelta :=
  store.planAt delta (recordKey mutation.table mutation.tenantId mutation.id)
    (mutateVersions sourceHash schema mutation epoch)

/-- `plan_delete_into`. -/
def planDeleteInto (delta : RecordStoreDelta) (schema : TableSchema) (deletion : RecordDeletion)
    (epoch : Epoch) : Result RecordStoreDelta :=
  store.planAt delta (recordKey deletion.table deletion.tenantId deletion.id)
    (deleteVersions schema deletion epoch)

/-- `plan_feature_invalidation_into`. -/
def planFeatureInvalidationInto (delta : RecordStoreDelta) (invalidation : FeatureInvalidation)
    (epoch : Epoch) : Result RecordStoreDelta :=
  store.planAt delta
    (recordKey invalidation.table invalidation.tenantId invalidation.recordId)
    (invalidateVersions invalidation epoch)

end RecordStore

namespace StoreWrite

/-- A direct write: whether it succeeds, and the store it leaves. -/
def perform (store : RecordStore) : StoreWrite → Result Unit × RecordStore
  | .replace schema input epoch =>
    (store.applyReplacementInPlace sourceHash schema input epoch).map (·.map fun _ => ()) id
  | .mutate schema mutation epoch =>
    (store.applyMutationInPlace sourceHash schema mutation epoch).map (·.map fun _ => ()) id
  | .delete schema deletion epoch =>
    (store.applyDeleteInPlace schema deletion epoch).map (·.map fun _ => ()) id
  | .invalidate invalidation epoch =>
    (store.applyFeatureInvalidationInPlace invalidation epoch).map (·.map fun _ => ()) id

/-- A planned write, over the delta so far. -/
def planInto (store : RecordStore) (delta : RecordStoreDelta) :
    StoreWrite → Result RecordStoreDelta
  | .replace schema input epoch => store.planReplacementInto sourceHash delta schema input epoch
  | .mutate schema mutation epoch => store.planMutationInto sourceHash delta schema mutation epoch
  | .delete schema deletion epoch => store.planDeleteInto delta schema deletion epoch
  | .invalidate invalidation epoch => store.planFeatureInvalidationInto delta invalidation epoch

end StoreWrite

namespace RecordStore

/-- Plans writes into a delta, from the write at `index` on; the error names the write. -/
def planAll (store : RecordStore) (index : ℕ) (delta : RecordStoreDelta) :
    List StoreWrite → Except (ℕ × TraceDbError) RecordStoreDelta
  | [] => .ok delta
  | write :: writes =>
    match write.planInto sourceHash store delta with
    | .error e => .error (index, e)
    | .ok delta' => planAll store (index + 1) delta' writes

/-- Performs writes one after the other, from the write at `index` on, and stops at an error. -/
def performAll (index : ℕ) (store : RecordStore) :
    List StoreWrite → Except (ℕ × TraceDbError) RecordStore
  | [] => .ok store
  | write :: writes =>
    match write.perform sourceHash store with
    | (.error e, _) => .error (index, e)
    | (.ok (), store') => performAll (index + 1) store' writes

end RecordStore

/-! ### What a direct write does -/

/-- A mutation passes the checks it starts with, and fails the check of its merged fields. -/
def FailsLate (schema : TableSchema) (mutation : RecordInput) (versions : Versions) : Prop :=
  checkMutation schema mutation = .ok () ∧
    validateRecordIdentity schema mutation (some (mergedFields schema mutation
      (versions.findLast? StoredRecord.isLive))) ≠ .ok ()

instance (schema : TableSchema) (mutation : RecordInput) (versions : Versions) :
    Decidable (FailsLate schema mutation versions) :=
  inferInstanceAs (Decidable (_ ∧ _))

/-- The write is a mutation that fails late in this store. -/
def StoreWrite.FailsLate (store : RecordStore) : StoreWrite → Prop
  | .mutate schema mutation _ => TraceDB.FailsLate schema mutation
      (store.versionsAt (recordKey mutation.table mutation.tenantId mutation.id))
  | _ => False

/-- The epoch of a write. -/
def StoreWrite.epoch : StoreWrite → Epoch
  | .replace _ _ epoch | .mutate _ _ epoch | .delete _ _ epoch | .invalidate _ epoch => epoch

/-- The schema that a write goes by is the one of its table. -/
def StoreWrite.InSchemas (schemas : List TableSchema) : StoreWrite → Prop
  | .replace schema input _ | .mutate schema input _ => findTable schemas input.table = some schema
  | .delete schema deletion _ => findTable schemas deletion.table = some schema
  | .invalidate invalidation _ => (findTable schemas invalidation.table).isSome = true

variable {sourceHash} {store : RecordStore}

theorem buildMutationRecord_eq (schema : TableSchema) (mutation : RecordInput)
    (previous : Option StoredRecord) (epoch : Epoch) :
    buildMutationRecord sourceHash schema mutation previous epoch = (do
      checkMutation schema mutation
      validateRecordIdentity schema mutation (some (mergedFields schema mutation previous))
      .ok (mutatedRecord sourceHash schema mutation previous epoch)) := by
  unfold buildMutationRecord checkMutation
  cases validateRecordIdentity schema mutation none with
  | error e => rfl
  | ok _ =>
    cases validateVectorDimensions schema mutation with
    | error e => rfl
    | ok _ =>
      simp only [Except.ok_bind]
      split_ifs <;> rfl

theorem RecordStore.bind_versions (store : RecordStore) (key : String) (p : StoredRecord → Bool) :
    (store.versions[key]?).bind (List.findLast? p) = (store.versionsAt key).findLast? p := by
  unfold RecordStore.versionsAt
  cases store.versions[key]? <;> rfl

variable (sourceHash) in
/-- What a direct write returns and leaves: the write to the versions of its key; or an error and
the store as it was; or, for a mutation that fails late, an error and the current version ended. -/
inductive StoreWrite.Performs (write : StoreWrite) (store : RecordStore) :
    Result Unit × RecordStore → Prop
  | ok {versions : Versions} :
      write.onVersions sourceHash (store.versionsAt write.target.key) = .ok versions →
      ¬ write.FailsLate store →
      Performs write store (.ok (), store.set write.target.key versions)
  | refused {e : TraceDbError} :
      write.onVersions sourceHash (store.versionsAt write.target.key) = .error e →
      ¬ write.FailsLate store → Performs write store (.error e, store)
  | late {e : TraceDbError} :
      write.onVersions sourceHash (store.versionsAt write.target.key) = .error e →
      write.FailsLate store → Performs write store (.error e, store.set write.target.key
        (closeCurrent write.epoch (store.versionsAt write.target.key)))

namespace StoreWrite

theorem performs_replace (store : RecordStore) (schema : TableSchema) (input : RecordInput)
    (epoch : Epoch) :
    Performs sourceHash (.replace schema input epoch) store
      (perform sourceHash store (.replace schema input epoch)) := by
  rw [perform, RecordStore.applyReplacementInPlace]
  cases hbuild : buildReplacementRecord sourceHash schema input epoch with
  | error e => exact .refused (by simp only [onVersions, replaceVersions, hbuild]; rfl) id
  | ok record => exact .ok (by simp only [onVersions, replaceVersions, hbuild]; rfl) id

theorem performs_mutate (store : RecordStore) (schema : TableSchema) (mutation : RecordInput)
    (epoch : Epoch) :
    Performs sourceHash (.mutate schema mutation epoch) store
      (perform sourceHash store (.mutate schema mutation epoch)) := by
  have hwrite : onVersions sourceHash (.mutate schema mutation epoch)
      (store.versionsAt (target (.mutate schema mutation epoch)).key) =
        mutateVersions sourceHash schema mutation epoch
          (store.versionsAt (recordKey mutation.table mutation.tenantId mutation.id)) := rfl
  simp only [mutateVersions, buildMutationRecord_eq] at hwrite
  rw [perform, RecordStore.applyMutationInPlace]
  cases hcheck : checkMutation schema mutation with
  | error e =>
    rw [hcheck] at hwrite
    exact .refused hwrite fun hlate => by cases hcheck.symm.trans hlate.1
  | ok _ =>
    dsimp only
    cases hidentity : validateRecordIdentity schema mutation (some (mergedFields schema mutation
        ((store.versionsAt (recordKey mutation.table mutation.tenantId mutation.id)).findLast?
          StoredRecord.isLive))) with
    | error e =>
      rw [hcheck, hidentity] at hwrite
      exact .late hwrite ⟨hcheck, fun hok => by cases hidentity.symm.trans hok⟩
    | ok _ =>
      rw [hcheck, hidentity] at hwrite
      exact .ok hwrite fun hlate => hlate.2 hidentity

theorem performs_delete (store : RecordStore) (schema : TableSchema) (deletion : RecordDeletion)
    (epoch : Epoch) :
    Performs sourceHash (.delete schema deletion epoch) store
      (perform sourceHash store (.delete schema deletion epoch)) := by
  have hwrite : onVersions sourceHash (.delete schema deletion epoch)
      (store.versionsAt (target (.delete schema deletion epoch)).key) =
        deleteVersions schema deletion epoch
          (store.versionsAt (recordKey deletion.table deletion.tenantId deletion.id)) := rfl
  rw [deleteVersions] at hwrite
  rw [perform, RecordStore.applyDeleteInPlace]
  cases hcheck : validateDeletionIdentity schema deletion with
  | error e =>
    rw [hcheck] at hwrite
    exact .refused hwrite id
  | ok _ =>
    dsimp only
    rw [RecordStore.bind_versions]
    cases hfind : (store.versionsAt (recordKey deletion.table deletion.tenantId
        deletion.id)).findLast? StoredRecord.isLive with
    | none =>
      rw [hcheck, hfind] at hwrite
      exact .refused hwrite id
    | some previous =>
      rw [hcheck, hfind] at hwrite
      exact .ok hwrite id

theorem performs_invalidate (store : RecordStore) (invalidation : FeatureInvalidation)
    (epoch : Epoch) :
    Performs sourceHash (.invalidate invalidation epoch) store
      (perform sourceHash store (.invalidate invalidation epoch)) := by
  have hwrite : onVersions sourceHash (.invalidate invalidation epoch)
      (store.versionsAt (target (.invalidate invalidation epoch)).key) =
        invalidateVersions invalidation epoch (store.versionsAt
          (recordKey invalidation.table invalidation.tenantId invalidation.recordId)) := rfl
  rw [invalidateVersions] at hwrite
  rw [perform, RecordStore.applyFeatureInvalidationInPlace, RecordStore.bind_versions]
  cases hfind : (store.versionsAt (recordKey invalidation.table invalidation.tenantId
      invalidation.recordId)).findLast? StoredRecord.isLive with
  | none =>
    rw [hfind] at hwrite
    exact .refused hwrite id
  | some record =>
    rw [hfind] at hwrite
    simp only [Std.ExtTreeMap.contains_eq_isSome_getElem?] at hwrite ⊢
    cases hstate : record.features[invalidation.feature]? with
    | none =>
      rw [hstate] at hwrite
      exact .refused hwrite id
    | some state =>
      rw [hstate] at hwrite
      exact .ok hwrite id

/-- Every direct write does one of these. -/
theorem performs (write : StoreWrite) (store : RecordStore) :
    Performs sourceHash write store (write.perform sourceHash store) := by
  cases write with
  | replace schema input epoch => exact performs_replace store schema input epoch
  | mutate schema mutation epoch => exact performs_mutate store schema mutation epoch
  | delete schema deletion epoch => exact performs_delete store schema deletion epoch
  | invalidate invalidation epoch => exact performs_invalidate store invalidation epoch

theorem planInto_eq (write : StoreWrite) (store : RecordStore) (delta : RecordStoreDelta) :
    write.planInto sourceHash store delta =
      store.planAt delta write.target.key (write.onVersions sourceHash) := by
  cases write <;> rfl

end StoreWrite

/-! ### Planning and performing agree -/

/-- A plan over a delta fails like the direct write to the store with the delta installed, and
installs what the write leaves. -/
theorem StoreWrite.planInto_cases (write : StoreWrite) (store : RecordStore)
    (delta : RecordStoreDelta) :
    (∃ e left, write.planInto sourceHash store delta = .error e ∧
        write.perform sourceHash (store.applyDelta delta) = (.error e, left)) ∨
      ∃ delta', write.planInto sourceHash store delta = .ok delta' ∧
        write.perform sourceHash (store.applyDelta delta) = (.ok (), store.applyDelta delta') := by
  have hplan := RecordStore.applyDelta_planAt store delta write.target.key
    (write.onVersions sourceHash)
  rw [← planInto_eq, RecordStore.applyAt] at hplan
  have hperform : Performs sourceHash write (store.applyDelta delta) _ :=
    write.performs (store.applyDelta delta)
  generalize write.perform sourceHash (store.applyDelta delta) = out at hperform ⊢
  cases hinto : write.planInto sourceHash store delta with
  | error e =>
    rw [hinto] at hplan
    refine .inl ⟨e, ?_⟩
    cases hperform with
    | ok hwrite _ =>
      rw [hwrite] at hplan
      cases hplan
    | refused hwrite _ | late hwrite _ =>
      rw [hwrite] at hplan
      cases hplan
      exact ⟨_, rfl, rfl⟩
  | ok delta' =>
    rw [hinto] at hplan
    refine .inr ⟨delta', rfl, ?_⟩
    cases hperform with
    | ok hwrite _ =>
      rw [hwrite] at hplan
      rw [show store.applyDelta delta' = _ from Except.ok.inj hplan]
    | refused hwrite _ | late hwrite _ =>
      rw [hwrite] at hplan
      cases hplan

/-- Planning writes into a delta and installing it is performing them on the store with the delta so
far installed. -/
theorem RecordStore.planAll_eq_performAll (store : RecordStore) (index : ℕ)
    (delta : RecordStoreDelta) (writes : List StoreWrite) :
    (store.planAll sourceHash index delta writes).map store.applyDelta =
      performAll sourceHash index (store.applyDelta delta) writes := by
  induction writes generalizing index delta with
  | nil => rfl
  | cons write writes ih =>
    rw [planAll, performAll]
    rcases write.planInto_cases store delta with
      ⟨e, left, hplan, hperform⟩ | ⟨delta', hplan, hperform⟩
    · rw [hplan, hperform]
      rfl
    · rw [hplan, hperform]
      exact ih (index + 1) delta'

namespace RecordStore

/-- One more write at the end of a plan. -/
theorem planAll_snoc {index : ℕ} {delta delta' delta'' : RecordStoreDelta}
    {writes : List StoreWrite} {write : StoreWrite}
    (h : store.planAll sourceHash index delta writes = .ok delta')
    (hwrite : write.planInto sourceHash store delta' = .ok delta'') :
    store.planAll sourceHash index delta (writes ++ [write]) = .ok delta'' := by
  induction writes generalizing index delta with
  | nil =>
    obtain rfl := Except.ok.inj h
    rw [List.nil_append, planAll, hwrite]
    rfl
  | cons first writes ih =>
    rw [List.cons_append, planAll]
    rw [planAll] at h
    cases hfirst : first.planInto sourceHash store delta with
    | error e =>
      rw [hfirst] at h
      cases h
    | ok next =>
      rw [hfirst] at h
      exact ih h

/-- Writes, one after the other. -/
def applyAll (sourceHash : Fields → List String → ℕ) (store : RecordStore)
    (writes : List StoreWrite) :
    Result RecordStore := writes.foldlM (fun store write => write.apply sourceHash store) store

/-- Installing planned writes is applying them. -/
theorem applyAll_of_planAll {index : ℕ} {delta delta' : RecordStoreDelta} {writes : List StoreWrite}
    (h : store.planAll sourceHash index delta writes = .ok delta') :
    (store.applyDelta delta).applyAll sourceHash writes = .ok (store.applyDelta delta') := by
  induction writes generalizing index delta with
  | nil =>
    obtain rfl := Except.ok.inj h
    rfl
  | cons write writes ih =>
    rw [planAll] at h
    cases hinto : write.planInto sourceHash store delta with
    | error e =>
      rw [hinto] at h
      cases h
    | ok next =>
      rw [hinto] at h
      have happly := applyDelta_planAt store delta write.target.key (write.onVersions sourceHash)
      rw [← StoreWrite.planInto_eq, hinto, ← StoreWrite.apply_eq] at happly
      rw [applyAll, List.foldlM_cons, ← happly]
      exact ih h

end RecordStore

/-! ### Errors of direct writes -/

theorem closeCurrent_eq_self_iff {epoch : Epoch} {versions : Versions} :
    closeCurrent epoch versions = versions ↔ ∀ record ∈ versions, ¬ record.isCurrent = true := by
  refine ⟨fun h => ?_, List.modifyLastWhere_of_forall_not _⟩
  cases hfind : versions.findLast? StoredRecord.isCurrent with
  | none => exact List.findLast?_eq_none.1 hfind
  | some current =>
    obtain ⟨before, after, hsplit, -, hmodify⟩ := List.split_findLast? hfind
    have hsame : before ++ current.endAt epoch :: after = before ++ current :: after := by
      rw [← hmodify (·.endAt epoch), ← hsplit]
      exact h
    have hended : current.endAt epoch = current := (List.cons.inj (List.append_cancel_left hsame)).1
    have hcurrent := List.prop_of_findLast? hfind
    rw [← hended] at hcurrent
    cases hcurrent

theorem RecordStore.set_eq_self_iff {store : RecordStore} {key : String} {versions : Versions} :
    store.set key versions = store ↔ store.versions[key]? = some versions := by
  constructor
  · intro h
    rw [← h, getElem?_set, if_pos rfl]
  · intro h
    ext key'
    rw [getElem?_set]
    split_ifs with hkey
    · rw [← hkey, h]
    · rfl

/-- The write is a mutation that fails late, on a key that is not there yet or has a current
version. -/
def StoreWrite.EditsFirst (store : RecordStore) (write : StoreWrite) : Prop :=
  write.FailsLate store ∧ (store.versions[write.target.key]? = none ∨
    ∃ record ∈ store.versionsAt write.target.key, record.isCurrent = true)

/-- What a mutation that fails late leaves is the store as it was, if its key is there and has no
current version. -/
theorem RecordStore.set_closeCurrent_eq_self_iff {store : RecordStore} {key : String}
    {epoch : Epoch} :
    store.set key (closeCurrent epoch (store.versionsAt key)) = store ↔
      ¬ (store.versions[key]? = none ∨
        ∃ record ∈ store.versionsAt key, record.isCurrent = true) := by
  rw [set_eq_self_iff]
  cases hkey : store.versions[key]? with
  | none => simp
  | some versions =>
    have hversions : store.versionsAt key = versions := by
      rw [versionsAt, hkey, Option.getD_some]
    rw [hversions, Option.some_inj, eq_comm, closeCurrent_eq_self_iff]
    simp

/-- A direct write that returns an error leaves the store as it was, unless it edits first. -/
theorem StoreWrite.unchanged_iff (write : StoreWrite) (store : RecordStore) :
    (∀ e, (write.perform sourceHash store).1 = .error e →
        (write.perform sourceHash store).2 = store) ↔ ¬ write.EditsFirst store := by
  have hperform : Performs sourceHash write store _ := write.performs store
  generalize write.perform sourceHash store = out at hperform ⊢
  cases hperform with
  | ok _ hlate => exact ⟨fun _ hedits => hlate hedits.1, fun _ e he => by cases he⟩
  | refused _ hlate => exact ⟨fun _ hedits => hlate hedits.1, fun _ e _ => rfl⟩
  | @late e _ hlate =>
    have hself : store.set write.target.key (closeCurrent write.epoch
        (store.versionsAt write.target.key)) = store ↔ ¬ write.EditsFirst store := by
      rw [RecordStore.set_closeCurrent_eq_self_iff, EditsFirst, not_iff_not]
      exact ⟨fun h => ⟨hlate, h⟩, And.right⟩
    exact ⟨fun h => hself.1 (h e rfl), fun h e' _ => hself.2 h⟩

/-! ### When a mutation fails late -/

/-- A column, where the fields have it, holds the text. -/
def HoldsText (fields : Fields) (column text : String) : Prop :=
  ∀ value, fields[column]? = some value → value.asStr = some text

theorem validateRecordIdentity_eq_ok_iff {schema : TableSchema} {mutation : RecordInput}
    {fields : Option Fields} :
    validateRecordIdentity schema mutation fields = .ok () ↔
      mutation.id ≠ "" ∧ mutation.tenantId ≠ "" ∧
        HoldsText (fields.getD mutation.fields) schema.primaryIdColumn mutation.id ∧
        HoldsText (fields.getD mutation.fields) schema.tenantIdColumn mutation.tenantId := by
  have hany : ∀ (o : Option Value) (text : String),
      (¬ (o.any fun value => decide (value.asStr ≠ some text)) = true) ↔
        ∀ value, o = some value → value.asStr = some text := by
    intro o text
    cases o <;> simp
  simp only [validateRecordIdentity, Except.guard_eq_ok_iff, hany, HoldsText, and_true]

/-- The value a column has in the merged fields before the identity columns are filled in. -/
def carried (mutation : RecordInput) (previous : Option StoredRecord) (column : String) :
    Option Value :=
  mutation.fields[column]?.or (previous.bind fun record => record.fields[column]?)

theorem getElem?_carried (mutation : RecordInput) (previous : Option StoredRecord)
    (column : String) :
    (mutation.fields.toList.foldl (fun fields e => fields.insert e.1 e.2)
      ((previous.map (·.fields)).getD ∅))[column]? = carried mutation previous column := by
  rw [← Std.ExtTreeMap.insertMany_list_eq_foldl]
  change (SortedMap.overlay _ _)[column]? = _
  rw [SortedMap.overlay_getElem?, carried]
  cases previous <;> simp

theorem getElem?_mergedFields {schema : TableSchema}
    (hcolumns : schema.primaryIdColumn ≠ schema.tenantIdColumn) (mutation : RecordInput)
    (previous : Option StoredRecord) :
    (mergedFields schema mutation previous)[schema.primaryIdColumn]? =
        some ((carried mutation previous schema.primaryIdColumn).getD (.string mutation.id)) ∧
      (mergedFields schema mutation previous)[schema.tenantIdColumn]? =
        some ((carried mutation previous schema.tenantIdColumn).getD
          (.string mutation.tenantId)) := by
  have hcarried := getElem?_carried mutation previous
  -- Filling in one column keeps the other one.
  have hfill : ∀ (fields : Fields) (column text other : String),
      (if fields.contains column then fields else fields.insert column (.string text))[other]? =
        if other = column then some (fields[column]?.getD (.string text)) else fields[other]? := by
    intro fields column text other
    rw [Std.ExtTreeMap.contains_eq_isSome_getElem?]
    cases hcolumn : fields[column]? with
    | none =>
      by_cases hother : other = column
      · simp [hother]
      · simp [hother, Std.ExtTreeMap.getElem?_insert, Ne.symm hother]
    | some value =>
      by_cases hother : other = column
      · simp [hother, hcolumn]
      · simp [hother]
  simp only [mergedFields, hfill, hcarried, if_neg hcolumns, if_neg hcolumns.symm, if_true,
    and_self]

/-- A mutation fails late when the live version of its key has another id or tenant in an identity
column that the mutation leaves out. -/
theorem failsLate_iff {schema : TableSchema}
    (hcolumns : schema.primaryIdColumn ≠ schema.tenantIdColumn) (mutation : RecordInput)
    (versions : Versions) :
    FailsLate schema mutation versions ↔ checkMutation schema mutation = .ok () ∧
      ∃ previous, versions.findLast? StoredRecord.isLive = some previous ∧
        (mutation.fields[schema.primaryIdColumn]? = none ∧
            ¬ HoldsText previous.fields schema.primaryIdColumn mutation.id ∨
          mutation.fields[schema.tenantIdColumn]? = none ∧
            ¬ HoldsText previous.fields schema.tenantIdColumn mutation.tenantId) := by
  unfold FailsLate
  refine and_congr_right fun hcheck => ?_
  rw [checkMutation, Except.bind_eq_ok_iff] at hcheck
  obtain ⟨_, hearly, -⟩ := hcheck
  obtain ⟨hid, htenant, hprimaryText, htenantText⟩ := validateRecordIdentity_eq_ok_iff.1 hearly
  obtain ⟨hprimary, htenantColumn⟩ := getElem?_mergedFields hcolumns mutation
    (versions.findLast? StoredRecord.isLive)
  -- What one of the two checks comes to.
  have hcheck : ∀ column text : String, HoldsText mutation.fields column text →
      (mergedFields schema mutation (versions.findLast? StoredRecord.isLive))[column]? =
        some ((carried mutation (versions.findLast? StoredRecord.isLive) column).getD
          (.string text)) →
      (¬ HoldsText (mergedFields schema mutation (versions.findLast? StoredRecord.isLive)) column
          text ↔ ∃ previous, versions.findLast? StoredRecord.isLive = some previous ∧
            mutation.fields[column]? = none ∧ ¬ HoldsText previous.fields column text) := by
    intro column text hown hmerged
    have hsome : ∀ fields : Fields, ∀ value, fields[column]? = some value →
        (HoldsText fields column text ↔ value.asStr = some text) := by
      intro fields value hvalue
      exact ⟨fun h => h value hvalue, fun h v hv => by
        rw [hvalue] at hv
        exact Option.some.inj hv ▸ h⟩
    rw [hsome _ _ hmerged, carried]
    cases hcolumn : mutation.fields[column]? with
    | some value => simp [hown value hcolumn]
    | none =>
      cases versions.findLast? StoredRecord.isLive with
      | none => simp [Value.asStr]
      | some previous =>
        cases hprevious : previous.fields[column]? with
        | none => simp [hprevious, HoldsText, Value.asStr]
        | some value => simp [hprevious, hsome _ _ hprevious]
  have hfails : validateRecordIdentity schema mutation (some (mergedFields schema mutation
      (versions.findLast? StoredRecord.isLive))) ≠ .ok () ↔
      ¬ HoldsText (mergedFields schema mutation (versions.findLast? StoredRecord.isLive))
          schema.primaryIdColumn mutation.id ∨
        ¬ HoldsText (mergedFields schema mutation (versions.findLast? StoredRecord.isLive))
          schema.tenantIdColumn mutation.tenantId := by
    rw [ne_eq, validateRecordIdentity_eq_ok_iff, ← not_and_or, not_iff_not]
    exact ⟨fun h => h.2.2, fun h => ⟨hid, htenant, h⟩⟩
  rw [hfails, hcheck _ _ hprimaryText hprimary, hcheck _ _ htenantText htenantColumn, ← exists_or]
  exact exists_congr fun previous => and_or_left.symm

/-! ### The main result -/

/-- **Planning and installing is performing.**  The delta of a list of writes installs the store the
direct writes leave, or the two fail with the same error at the same write.  A direct write that
returns an error leaves the store as it was exactly when it does not edit first. -/
theorem plan_apply_refines (store : RecordStore) :
    (∀ writes : List StoreWrite,
      (store.planAll sourceHash 0 .empty writes).map store.applyDelta =
        RecordStore.performAll sourceHash 0 store writes) ∧
    ∀ write : StoreWrite,
      ((∀ e, (write.perform sourceHash store).1 = .error e →
          (write.perform sourceHash store).2 = store) ↔ ¬ write.EditsFirst store) := by
  refine ⟨fun writes => ?_, fun write => write.unchanged_iff store⟩
  rw [RecordStore.planAll_eq_performAll, RecordStore.applyDelta_empty]

/-- A refused mutation that removes a record.  The record `c` of tenant `a NUL b` has the key of the
record `b NUL c` of tenant `a`; the mutation of the latter is refused for its id, after it ended the
former. -/
theorem refused_mutation_ends_record :
    let store := RecordStore.empty.runWrites (fun _ _ => 0)
      [.replace docsSchema ⟨"docs", "c", "a\x00b", ∅⟩ 1]
    let mutation : StoreWrite := .mutate docsSchema ⟨"docs", "b\x00c", "a", ∅⟩ 2
    (mutation.perform (fun _ _ => 0) store).1 =
        .error (.invalidRecord "primary id field id must match record id") ∧
      (mutation.perform (fun _ _ => 0) store).2 ≠ store ∧
      (store.getRecord "docs" "a\x00b" "c" 2).isSome = true ∧
      ((mutation.perform (fun _ _ => 0) store).2.getRecord "docs" "a\x00b" "c" 2).isSome =
        false := by
  intro store mutation
  have hbefore : (store.getRecord "docs" "a\x00b" "c" 2).isSome = true := by decide
  have hafter : ((mutation.perform (fun _ _ => 0) store).2.getRecord "docs" "a\x00b" "c" 2).isSome =
      false := by decide
  refine ⟨by decide, fun hsame => ?_, hbefore, hafter⟩
  rw [hsame, hbefore] at hafter
  cases hafter

end TraceDB
