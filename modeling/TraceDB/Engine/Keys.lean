import TraceDB.Engine.History

/-!
# Versions and their keys

`Reachable.keyed` : on every reachable handle every version of every record is stored under the key
of its own table, tenant and id.  So a record that a scan lists for its own table and tenant is the
one that `get_record` finds at the same epoch (`RecordStore.Keyed.getRecord`).
-/

namespace TraceDB

variable {F : EngineFormat}

namespace RecordStore

/-- Every version is stored under its own key. -/
abbrev Keyed (store : RecordStore) : Prop := store.Holds fun _ => True

theorem Keyed.apply (sourceHash : Fields → List String → ℕ) {store store' : RecordStore}
    (h : store.Keyed) (write : StoreWrite) (happly : write.apply sourceHash store = .ok store') :
    store'.Keyed := Holds.apply h trivial happly

theorem keyed_fromCheckpointRecords (records : List StoredRecord) :
    (fromCheckpointRecords records).Keyed := by
  have hfold : ∀ (records : List StoredRecord) {store : RecordStore}, store.Keyed →
      (records.foldl (fun store record =>
        let key := recordKey record.header.tableId record.header.tenantId record.header.recordId
        store.set key (store.versionsAt key ++ [record])) store).Keyed := by
    intro records
    induction records with
    | nil => exact fun h => h
    | cons record records ih =>
      intro store h
      refine ih ?_
      intro key versions hget version hversion
      rw [getElem?_set] at hget
      split_ifs at hget with hkey
      · obtain rfl := Option.some.inj hget
        subst hkey
        rcases List.mem_append.1 hversion with hold | hnew
        · rw [versionsAt] at hold
          cases hold' : store.versions[recordKey record.header.tableId record.header.tenantId
              record.header.recordId]? with
          | none => simp [hold'] at hold
          | some versions =>
            rw [hold', Option.getD_some] at hold
            exact h _ versions hold' version hold
        · obtain rfl := List.mem_singleton.1 hnew
          exact ⟨rfl, trivial⟩
      · exact h key versions hget version hversion
  exact hfold records holds_empty

/-- Replaying commits keeps versions under their keys. -/
theorem Keyed.applyCommits {sourceHash : Fields → List String → ℕ} {store store' : RecordStore}
    {schemas : List TableSchema} {commits : List CommitRecord} (h : store.Keyed)
    (happly : store.applyCommits sourceHash schemas commits = .ok store') : store'.Keyed := by
  refine Except.foldlM_invariant (I := Keyed) happly h fun store commit store' _ h hcommit => ?_
  simp only [applyCommit, Except.bind_eq_ok_iff] at hcommit
  obtain ⟨s₁, h₁, s₂, h₂, s₃, h₃, h₄⟩ := hcommit
  have hs₁ := Except.foldlM_invariant (I := Keyed) h₁ h fun s input s' _ hs happly => by
    simp only [Except.bind_eq_ok_iff] at happly
    obtain ⟨schema, -, happly⟩ := happly
    exact hs.apply sourceHash (.replace schema input commit.epoch) happly
  have hs₂ := Except.foldlM_invariant (I := Keyed) h₂ hs₁ fun s input s' _ hs happly => by
    simp only [Except.bind_eq_ok_iff] at happly
    obtain ⟨schema, -, happly⟩ := happly
    exact hs.apply sourceHash (.mutate schema input commit.epoch) happly
  have hs₃ := Except.foldlM_invariant (I := Keyed) h₃ hs₂ fun s deletion s' _ hs happly => by
    simp only [Except.bind_eq_ok_iff] at happly
    obtain ⟨schema, -, happly⟩ := happly
    exact hs.apply sourceHash (.delete schema deletion commit.epoch) happly
  refine Except.foldlM_invariant (I := Keyed) h₄ hs₃ fun s invalidation s' _ hs happly => ?_
  unfold replayInvalidation at happly
  split_ifs at happly
  · rw [Except.bind_eq_ok_iff] at happly
    obtain ⟨resolved, -, happly⟩ := happly
    exact hs.apply sourceHash (.invalidate resolved commit.epoch) happly
  · exact hs.apply sourceHash (.invalidate invalidation commit.epoch) happly

/-- Planned writes keep versions under their keys. -/
theorem Keyed.planAll {sourceHash : Fields → List String → ℕ} {store : RecordStore} {index : ℕ}
    {delta delta' : RecordStoreDelta} {writes : List StoreWrite}
    (h : (store.applyDelta delta).Keyed)
    (hplan : store.planAll sourceHash index delta writes = .ok delta') :
    (store.applyDelta delta').Keyed :=
  Except.foldlM_invariant (I := Keyed) (applyAll_of_planAll hplan) h
    fun _ write _ _ hkeyed happly => hkeyed.apply sourceHash write happly

/-- A listed record is the one that is found by its own table, tenant and id. -/
theorem Keyed.getRecord {store : RecordStore} (h : store.Keyed) {table tenantId : String}
    {epoch : Epoch} {record : StoredRecord}
    (hmem : record ∈ store.visibleRecordsAt table tenantId epoch) :
    store.getRecord record.header.tableId record.header.tenantId record.header.recordId epoch =
      some record := by
  obtain ⟨key, versions, hget, -, hvisible⟩ := mem_visibleRecordsAt.1 hmem
  have hkey := (h key versions hget record (List.mem_of_findLast? hvisible)).1
  rw [RecordStore.getRecord, show recordKey record.header.tableId record.header.tenantId
    record.header.recordId = key from hkey, hget]
  exact hvisible

end RecordStore

/-- What is opened has its versions under their keys. -/
theorem keyed_open {disk : Disk} {db : Db} (hopen : Db.open F disk = .ok db) : db.store.Keyed := by
  simp only [Db.open, Except.bind_eq_ok_iff] at hopen
  obtain ⟨_, -, manifest, -, wal, -, scan, -, recovered, hrecover, next, -, hdb⟩ := hopen
  obtain rfl := Except.ok.inj hdb
  simp only [recover, Except.bind_eq_ok_iff] at hrecover
  obtain ⟨loaded, hload, hreplay⟩ := hrecover
  have hloaded : loaded.store.Keyed := by
    simp only [loadCheckpoint, Except.guard_eq_ok_iff] at hload
    obtain ⟨-, hload⟩ := hload
    by_cases hcheckpoint : 0 < manifest.checkpointEpoch
    · simp only [hcheckpoint, if_true, Except.bind_eq_ok_iff, Except.guard_eq_ok_iff] at hload
      obtain ⟨checkpoint, -, -, hload⟩ := hload
      obtain rfl := Except.ok.inj hload
      exact RecordStore.keyed_fromCheckpointRecords _
    · simp only [hcheckpoint, if_false] at hload
      obtain rfl := Except.ok.inj hload
      exact RecordStore.holds_empty
  simp only [replayCommits, Except.bind_eq_ok_iff] at hreplay
  obtain ⟨_, -, store, happly, heq⟩ := hreplay
  obtain rfl := Except.ok.inj heq
  exact hloaded.applyCommits happly

/-- **On every reachable handle every version is stored under its own key.** -/
theorem Reachable.keyed [F.Lossless] {dir : String} {db : Db} (h : Reachable F dir db) :
    db.store.Keyed := by
  induction h with
  | opened hopen => exact keyed_open hopen
  | run op hreach ih =>
    obtain ⟨entries, hsync⟩ := hreach.synced
    rcases hsync.run_cases op with hsame | ⟨plan, hplan, -, hrun, -⟩
    · rwa [hsame]
    · rw [hrun]
      obtain ⟨writes, -, hwrites⟩ := plan_writes hplan
      refine RecordStore.Keyed.planAll ?_ hwrites
      rwa [RecordStore.applyDelta_empty]
  | checkpoint hreach hcheckpoint ih =>
    obtain ⟨entries, hsync⟩ := hreach.synced
    rw [hsync.checkpoint_eq] at hcheckpoint
    obtain ⟨-, rfl⟩ := Prod.mk.inj hcheckpoint
    exact ih
  | publish segmentId generation hreach hpublish ih =>
    obtain ⟨entries, hsync⟩ := hreach.synced
    rcases hsync.publishSegment_cases hpublish with rfl | ⟨_, _, -, rfl⟩
    · exact ih
    · exact ih
  | compact hreach hcompact ih =>
    obtain ⟨entries, hsync⟩ := hreach.synced
    rcases hsync.publishCompactedSegment_cases hcompact with rfl | ⟨_, _, -, rfl⟩
    · exact ih
    · exact ih
  | reopen hreach hopen ih => exact keyed_open hopen
  | crash k n hreach hplan hrun hopen ih => exact keyed_open hopen
  | checkpointCrash hreach hpublish hopen ih => exact keyed_open hopen

end TraceDB
