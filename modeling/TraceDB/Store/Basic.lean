import TraceDB.Data.Except
import TraceDB.Data.SortedMap
import TraceDB.Log.Commit
import TraceDB.Store.Record

/-!
# The record store

`RecordStore` (`tracedb-store`) maps record keys to version lists.

* Writes come in two forms: `applyReplacement` and its siblings change the store, and
  `planReplacementInto` and its siblings compute a delta that `applyDelta` installs later.
  `applyDelta_plan_*` : installing a planned write is applying it.
* `applyCommits` replays commits, as recovery does.
* `getRecord`, `visibleRecordsAt`, `featureState`, `isTombstonedAt` read the store at an epoch.
-/

namespace TraceDB

/-- `record_key_prefix`. -/
def recordKeyPrefix (table tenant : String) : String := table ++ "\x00" ++ tenant ++ "\x00"

/-- `record_key`. -/
def recordKey (table tenant id : String) : String := recordKeyPrefix table tenant ++ id

/-- `RecordStore`. -/
structure RecordStore where
  versions : Std.ExtTreeMap String Versions compare
  deriving DecidableEq

/-- `RecordStoreDelta`. -/
structure RecordStoreDelta where
  versionsByKey : Std.ExtTreeMap String Versions compare
  deriving DecidableEq

/-- `RecordStoreDelta::default`. -/
def RecordStoreDelta.empty : RecordStoreDelta := ⟨∅⟩

namespace RecordStore

/-- `RecordStore::default`. -/
def empty : RecordStore := ⟨∅⟩

variable (store : RecordStore)

/-- The versions of a key; none for a key that is not there. -/
def versionsAt (key : String) : Versions := store.versions[key]?.getD []

/-- Stores the versions of a key. -/
def set (key : String) (versions : Versions) : RecordStore := ⟨store.versions.insert key versions⟩

/-- `apply_delta`. -/
def applyDelta (delta : RecordStoreDelta) : RecordStore :=
  ⟨SortedMap.overlay store.versions delta.versionsByKey⟩

/-- `versions_for_planning`. -/
def versionsForPlanning (delta : RecordStoreDelta) (key : String) : Versions :=
  (delta.versionsByKey[key]?.or store.versions[key]?).getD []

/-- A write to the versions of one key, applied to the store. -/
def applyAt (key : String) (write : Versions → Result Versions) : Result RecordStore := do
  let versions ← write (store.versionsAt key)
  .ok (store.set key versions)

/-- A write to the versions of one key, planned into a delta. -/
def planAt (delta : RecordStoreDelta) (key : String) (write : Versions → Result Versions) :
    Result RecordStoreDelta := do
  let versions ← write (store.versionsForPlanning delta key)
  .ok ⟨delta.versionsByKey.insert key versions⟩

variable (sourceHash : Fields → List String → ℕ)

/-- `apply_replacement`. -/
def applyReplacement (schema : TableSchema) (input : RecordInput) (epoch : Epoch) :
    Result RecordStore :=
  store.applyAt (recordKey input.table input.tenantId input.id)
    (replaceVersions sourceHash schema input epoch)

/-- `plan_replacement_into`. -/
def planReplacementInto (delta : RecordStoreDelta) (schema : TableSchema) (input : RecordInput)
    (epoch : Epoch) : Result RecordStoreDelta :=
  store.planAt delta (recordKey input.table input.tenantId input.id)
    (replaceVersions sourceHash schema input epoch)

/-- `plan_replacement`. -/
def planReplacement (schema : TableSchema) (input : RecordInput) (epoch : Epoch) :
    Result RecordStoreDelta :=
  store.planReplacementInto sourceHash .empty schema input epoch

/-- `apply_mutation`. -/
def applyMutation (schema : TableSchema) (mutation : RecordInput) (epoch : Epoch) :
    Result RecordStore :=
  store.applyAt (recordKey mutation.table mutation.tenantId mutation.id)
    (mutateVersions sourceHash schema mutation epoch)

/-- `plan_mutation`. -/
def planMutation (schema : TableSchema) (mutation : RecordInput) (epoch : Epoch) :
    Result RecordStoreDelta :=
  store.planAt .empty (recordKey mutation.table mutation.tenantId mutation.id)
    (mutateVersions sourceHash schema mutation epoch)

/-- `apply_delete`. -/
def applyDelete (schema : TableSchema) (deletion : RecordDeletion) (epoch : Epoch) :
    Result RecordStore :=
  store.applyAt (recordKey deletion.table deletion.tenantId deletion.id)
    (deleteVersions schema deletion epoch)

/-- `plan_delete`. -/
def planDelete (schema : TableSchema) (deletion : RecordDeletion) (epoch : Epoch) :
    Result RecordStoreDelta :=
  store.planAt .empty (recordKey deletion.table deletion.tenantId deletion.id)
    (deleteVersions schema deletion epoch)

/-- `apply_feature_invalidation`. -/
def applyFeatureInvalidation (invalidation : FeatureInvalidation) (epoch : Epoch) :
    Result RecordStore :=
  store.applyAt (recordKey invalidation.table invalidation.tenantId invalidation.recordId)
    (invalidateVersions invalidation epoch)

/-- `plan_feature_invalidation`. -/
def planFeatureInvalidation (invalidation : FeatureInvalidation) (epoch : Epoch) :
    Result RecordStoreDelta :=
  store.planAt .empty
    (recordKey invalidation.table invalidation.tenantId invalidation.recordId)
    (invalidateVersions invalidation epoch)

/-! ### Replay -/

/-- `active_feature_tenants`. -/
def activeFeatureTenants (invalidation : FeatureInvalidation) : List String :=
  store.versions.toList.filterMap fun e =>
    match e.2.findLast? fun record => decide (record.header.tableId = invalidation.table) &&
        decide (record.header.recordId = invalidation.recordId) && record.isLive with
    | none => none
    | some record =>
      if record.features.contains invalidation.feature then some record.header.tenantId else none

/-- `resolve_legacy_feature_invalidation`. -/
def resolveLegacyFeatureInvalidation (invalidation : FeatureInvalidation) (commit : CommitRecord) :
    Result FeatureInvalidation :=
  let place := s!"{invalidation.table}.{invalidation.recordId}.{invalidation.feature}"
  let commitTenants := ((commit.mutations ++ commit.replacements).filterMap fun input =>
    if input.table = invalidation.table ∧ input.id = invalidation.recordId ∧
        ¬ Text.isBlank input.tenantId then some (Text.trim input.tenantId) else none).eraseDups
  match commitTenants with
  | [tenant] => .ok { invalidation with tenantId := tenant }
  | _ :: _ :: _ => .error (.walCorruption
      s!"ambiguous feature invalidation for {place} in commit {commit.transactionId}")
  | [] =>
    match (store.activeFeatureTenants invalidation).eraseDups with
    | [tenant] => .ok { invalidation with tenantId := tenant }
    | [] => .error
        (featureNotFound invalidation.table invalidation.recordId invalidation.feature)
    | _ :: _ :: _ => .error (.walCorruption s!"ambiguous feature invalidation for {place}")

end RecordStore

/-- `TraceDbManifest::table` and the lookups of `apply_commits`. -/
def findTable (schemas : List TableSchema) (table : String) : Option TableSchema :=
  schemas.find? fun schema => schema.name = table

/-- The lookup of a table that has to be there. -/
def tableOrUnknown (schemas : List TableSchema) (table : String) : Result TableSchema :=
  match findTable schemas table with
  | none => .error (.unknownTable table)
  | some schema => .ok schema

namespace RecordStore

variable (sourceHash : Fields → List String → ℕ) (schemas : List TableSchema)

/-- The body of the loop over the feature invalidations of a commit. -/
def replayInvalidation (commit : CommitRecord) (store : RecordStore)
    (invalidation : FeatureInvalidation) : Result RecordStore := do
  let invalidation ←
    if Text.isBlank invalidation.tenantId then
      store.resolveLegacyFeatureInvalidation invalidation commit
    else .ok invalidation
  store.applyFeatureInvalidation invalidation commit.epoch

/-- The body of the loop of `apply_commits`. -/
def applyCommit (store : RecordStore) (commit : CommitRecord) : Result RecordStore := do
  let store ← commit.replacements.foldlM (fun store replacement => do
    let schema ← tableOrUnknown schemas replacement.table
    store.applyReplacement sourceHash schema replacement commit.epoch) store
  let store ← commit.mutations.foldlM (fun store mutation => do
    let schema ← tableOrUnknown schemas mutation.table
    store.applyMutation sourceHash schema mutation commit.epoch) store
  let store ← commit.deletions.foldlM (fun store deletion => do
    let schema ← tableOrUnknown schemas deletion.table
    store.applyDelete schema deletion commit.epoch) store
  commit.featureInvalidations.foldlM (replayInvalidation commit) store

/-- `apply_commits`. -/
def applyCommits (store : RecordStore) (commits : List CommitRecord) : Result RecordStore :=
  commits.foldlM (applyCommit sourceHash schemas) store

/-! ### Reads -/

/-- `visible_record_at`. -/
def visibleRecordAt (versions : Versions) (epoch : Epoch) : Option StoredRecord :=
  versions.findLast? fun record => record.isVisible epoch

variable (store : RecordStore)

/-- `get_record`. -/
def getRecord (table tenantId recordId : String) (epoch : Epoch) : Option StoredRecord :=
  store.versions[recordKey table tenantId recordId]?.bind fun versions =>
    visibleRecordAt versions epoch

/-- `visible_records_at`: the walk up from the prefix. -/
def visibleRecordsAt (table tenantId : String) (epoch : Epoch) : List StoredRecord :=
  let start := recordKeyPrefix table tenantId
  ((store.versions.toList.dropWhile fun e => decide (e.1 < start)).takeWhile
    fun e => start.toList.isPrefixOf e.1.toList).filterMap fun e => visibleRecordAt e.2 epoch

/-- `checkpoint_records`. -/
def checkpointRecords (epoch : Epoch) : List StoredRecord :=
  store.versions.toList.filterMap fun e => e.2.findLast? fun record => record.spans epoch

/-- `from_checkpoint_records`. -/
def fromCheckpointRecords (records : List StoredRecord) : RecordStore :=
  records.foldl (fun store record =>
    let key := recordKey record.header.tableId record.header.tenantId record.header.recordId
    store.set key (store.versionsAt key ++ [record])) empty

/-- `snapshot` and its records. -/
def snapshot (epoch : Epoch) : List StoredRecord :=
  store.versions.toList.filterMap fun e => visibleRecordAt e.2 epoch

/-- `ReadSnapshot::all_visible_records`. -/
def allVisibleRecords (records : List StoredRecord) (table : String) : List StoredRecord :=
  records.filter fun record => record.header.tableId = table

/-- `feature_state`. -/
def featureState (table tenantId recordId feature : String) (epoch : Epoch) :
    Option DerivedFeatureState :=
  store.versions.toList.findSome? fun e =>
    (e.2.findLast? fun record => decide (record.header.tableId = table) &&
        decide (record.header.tenantId = tenantId) && decide (record.header.recordId = recordId) &&
        record.isVisible epoch).bind fun record => record.features[feature]?

/-- `is_tombstoned_at`. -/
def isTombstonedAt (table tenantId recordId : String) (epoch : Epoch) : Bool :=
  match (store.versions[recordKey table tenantId recordId]?).bind
      (List.findLast? fun record => record.spans epoch) with
  | none => false
  | some record => record.header.tombstone.isSome

/-! ### Planning and applying agree -/

variable {store} {sourceHash}

@[ext] theorem ext {s t : RecordStore} (h : ∀ key : String, s.versions[key]? = t.versions[key]?) :
    s = t := by
  cases s; cases t
  congr 1
  exact Std.ExtTreeMap.ext_getElem? h

@[simp] theorem getElem?_set (store : RecordStore) (key key' : String) (versions : Versions) :
    (store.set key versions).versions[key']? =
      if key = key' then some versions else store.versions[key']? := by
  simp only [set, Std.ExtTreeMap.getElem?_insert, Std.LawfulEqCmp.compare_eq_iff_eq]

@[simp] theorem versionsAt_set (store : RecordStore) (key key' : String) (versions : Versions) :
    (store.set key versions).versionsAt key' =
      if key = key' then versions else store.versionsAt key' := by
  simp only [versionsAt, getElem?_set]
  split_ifs <;> rfl

@[simp] theorem applyDelta_empty (store : RecordStore) : store.applyDelta .empty = store := by
  simp [applyDelta, RecordStoreDelta.empty]

/-- Planning over a delta and installing it is applying to the store with the delta installed. -/
theorem applyDelta_planAt (store : RecordStore) (delta : RecordStoreDelta) (key : String)
    (write : Versions → Result Versions) :
    (store.planAt delta key write).map store.applyDelta =
      (store.applyDelta delta).applyAt key write := by
  have hversions : (store.applyDelta delta).versionsAt key =
      store.versionsForPlanning delta key := by
    simp only [versionsAt, applyDelta, SortedMap.overlay_getElem?, versionsForPlanning]
  simp only [planAt, applyAt, hversions]
  cases write (store.versionsForPlanning delta key) with
  | error e => rfl
  | ok versions =>
    simp only [Except.ok_bind, Except.map, applyDelta, SortedMap.overlay_insert, set]

/-- The same for a successful plan that starts from the empty delta. -/
theorem applyAt_of_planAt {key : String} {write : Versions → Result Versions}
    {delta : RecordStoreDelta} (h : store.planAt .empty key write = .ok delta) :
    store.applyAt key write = .ok (store.applyDelta delta) := by
  have := applyDelta_planAt store .empty key write
  rw [h, applyDelta_empty] at this
  exact this.symm

theorem applyAt_eq_ok {key : String} {write : Versions → Result Versions} {store' : RecordStore}
    (h : store.applyAt key write = .ok store') :
    ∃ versions, write (store.versionsAt key) = .ok versions ∧ store' = store.set key versions := by
  rw [applyAt, Except.bind_eq_ok_iff] at h
  obtain ⟨versions, hw, h⟩ := h
  exact ⟨versions, hw, (Except.ok.inj h).symm⟩

/-! ### Scans select by prefix -/

theorem mem_visibleRecordsAt {table tenantId : String} {epoch : Epoch} {record : StoredRecord} :
    record ∈ store.visibleRecordsAt table tenantId epoch ↔
      ∃ (key : String) (versions : Versions), store.versions[key]? = some versions ∧
        (recordKeyPrefix table tenantId).toList <+: key.toList ∧
        visibleRecordAt versions epoch = some record := by
  simp only [visibleRecordsAt, SortedMap.takeWhile_prefix_range _
    Std.ExtTreeMap.ordered_keys_toList, List.mem_filterMap, List.mem_filter,
    List.isPrefixOf_iff_prefix, SortedMap.mem_toList]
  constructor
  · rintro ⟨⟨key, versions⟩, ⟨hkey, hpre⟩, hvisible⟩
    exact ⟨key, versions, hkey, hpre, hvisible⟩
  · rintro ⟨key, versions, hkey, hpre, hvisible⟩
    exact ⟨(key, versions), ⟨hkey, hpre⟩, hvisible⟩

end RecordStore

end TraceDB
