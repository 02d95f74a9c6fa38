import TraceDB.Store.Basic

/-!
# Only the newest version of a key matters

Every write of the store ends the current version of its key and appends a new one, or changes the
current version in place.  So a version list is closed versions followed by one open version, its
*tip*, and neither a write nor a read at the latest epoch looks at anything but the tip.

* `Tip epoch versions tip` : `tip` is the open version, and all others ended at or before `epoch`.
* `SameTips epoch s t` : two stores have the same keys with the same tips.  Writes keep this
  relation and fail alike (`SameTips.applyAt`), and reads at `epoch` do not tell such stores apart.
* `sameTips_fromCheckpointRecords` : a store and the store rebuilt from its checkpoint records have
  the same tips.
-/

namespace TraceDB

open Except (SameResult)

/-! ### Tips of version lists -/

/-- The key a record is stored under. -/
def StoredRecord.key (record : StoredRecord) : String :=
  recordKey record.header.tableId record.header.tenantId record.header.recordId

/-- `tip` is the open version of the list; the versions before it ended by `epoch`. -/
def Tip (epoch : Epoch) (versions : Versions) (tip : StoredRecord) : Prop :=
  ∃ older, versions = older ++ [tip] ∧ tip.header.endEpoch = none ∧
    tip.header.beginEpoch ≤ epoch ∧
    ∀ record ∈ older, ∃ e, record.header.endEpoch = some e ∧ e ≤ epoch

namespace Tip

variable {epoch : Epoch} {versions : Versions} {tip : StoredRecord}

theorem isCurrent (h : Tip epoch versions tip) : tip.isCurrent = true := by
  obtain ⟨older, -, hend, -⟩ := h
  simp [StoredRecord.isCurrent, hend]

theorem mono {epoch' : Epoch} (h : Tip epoch versions tip) (hle : epoch ≤ epoch') :
    Tip epoch' versions tip := by
  obtain ⟨older, heq, hend, hbegin, holder⟩ := h
  refine ⟨older, heq, hend, hbegin.trans hle, fun record hrecord => ?_⟩
  obtain ⟨e, he, hlate⟩ := holder record hrecord
  exact ⟨e, he, hlate.trans hle⟩

/-- A search from the end that closed versions do not satisfy looks at the tip only. -/
theorem findLast? (h : Tip epoch versions tip) {p : StoredRecord → Bool}
    (hp : ∀ record e, record.header.endEpoch = some e → e ≤ epoch → p record = false) :
    versions.findLast? p = if p tip then some tip else none := by
  obtain ⟨older, rfl, -, -, holder⟩ := h
  have hnone : older.findLast? p = none := by
    rw [List.findLast?_eq_none]
    intro record hrecord
    obtain ⟨e, he, hle⟩ := holder record hrecord
    simp [hp record e he hle]
  rw [List.findLast?_append_singleton, hnone]

theorem findLast?_isLive (h : Tip epoch versions tip) :
    versions.findLast? StoredRecord.isLive = if tip.isLive then some tip else none := by
  refine h.findLast? fun record e he _ => ?_
  simp [StoredRecord.isLive, StoredRecord.isCurrent, he]

theorem isVisible_closed {record : StoredRecord} {e : Epoch}
    (he : record.header.endEpoch = some e) (hle : e ≤ epoch) : record.spans epoch = false := by
  simp [StoredRecord.spans, he, not_lt.2 hle]

theorem visibleRecordAt (h : Tip epoch versions tip) :
    RecordStore.visibleRecordAt versions epoch =
      if tip.isVisible epoch then some tip else none := by
  refine h.findLast? fun record e he hle => ?_
  simp [StoredRecord.isVisible, isVisible_closed he hle]

theorem findLast?_spans (h : Tip epoch versions tip) :
    (versions.findLast? fun record => record.spans epoch) = some tip := by
  have hspans : tip.spans epoch = true := by
    obtain ⟨older, -, hend, hbegin, -⟩ := h
    simp [StoredRecord.spans, hend, hbegin]
  rw [h.findLast? fun record e he hle => isVisible_closed he hle, if_pos hspans]

/-- Ending the tip and appending another open version. -/
theorem append (h : Tip epoch versions tip) {e : Epoch} (he : e ≤ epoch) {record : StoredRecord}
    (hend : record.header.endEpoch = none) (hbegin : record.header.beginEpoch ≤ epoch)
    {p : StoredRecord → Bool} (hp : p tip = true) :
    Tip epoch (versions.modifyLastWhere p (·.endAt e) ++ [record]) record := by
  obtain ⟨older, rfl, -, -, holder⟩ := h
  refine ⟨older ++ [tip.endAt e], ?_, hend, hbegin, ?_⟩
  · rw [List.modifyLastWhere_append_of_pos _ _ hp]
  · intro record' hrecord'
    rcases List.mem_append.1 hrecord' with hold | hnew
    · exact holder record' hold
    · obtain rfl := List.mem_singleton.1 hnew
      exact ⟨e, rfl, he⟩

theorem setFeature (h : Tip epoch versions tip) {feature : String} {status : FeatureStatus}
    {e : Epoch} (hlive : tip.isLive = true) :
    Tip epoch (versions.modifyLastWhere StoredRecord.isLive (·.setFeature feature status e))
      (tip.setFeature feature status e) := by
  obtain ⟨older, rfl, hend, hbegin, holder⟩ := h
  have hheader : (tip.setFeature feature status e).header = tip.header := by
    unfold StoredRecord.setFeature
    split <;> rfl
  refine ⟨older, ?_, by rw [hheader, hend], by rw [hheader]; exact hbegin, holder⟩
  rw [List.modifyLastWhere_append_of_pos _ _ hlive]

end Tip

/-- A single open version. -/
theorem tip_singleton {epoch : Epoch} {record : StoredRecord}
    (hend : record.header.endEpoch = none) (hbegin : record.header.beginEpoch ≤ epoch) :
    Tip epoch [record] record :=
  ⟨[], rfl, hend, hbegin, by simp⟩

/-- Two version lists of a key: both empty, or with the same tip, which belongs to the key. -/
def SameTip (epoch : Epoch) (key : String) (versions versions' : Versions) : Prop :=
  (versions = [] ∧ versions' = []) ∨
    ∃ tip, Tip epoch versions tip ∧ Tip epoch versions' tip ∧ tip.key = key

/-- The same, when there is a version. -/
def SharedTip (epoch : Epoch) (key : String) (versions versions' : Versions) : Prop :=
  ∃ tip, Tip epoch versions tip ∧ Tip epoch versions' tip ∧ tip.key = key

/-! ### Writes -/

variable {sourceHash : Fields → List String → ℕ} {epoch e : Epoch} {key : String}
  {versions versions' : Versions}

/-- Ending the current version and appending a new one. -/
theorem SameTip.closeCurrent_append (h : SameTip epoch key versions versions') (he : e ≤ epoch)
    {record : StoredRecord} (hend : record.header.endEpoch = none)
    (hbegin : record.header.beginEpoch ≤ epoch) (hkey : record.key = key) :
    SharedTip epoch key (closeCurrent e versions ++ [record])
      (closeCurrent e versions' ++ [record]) := by
  rcases h with ⟨rfl, rfl⟩ | ⟨tip, htip, htip', -⟩
  · exact ⟨record, tip_singleton hend hbegin, tip_singleton hend hbegin, hkey⟩
  · exact ⟨record, htip.append he hend hbegin htip.isCurrent,
      htip'.append he hend hbegin htip'.isCurrent, hkey⟩

theorem SameTip.findLast?_isLive (h : SameTip epoch key versions versions') :
    versions.findLast? StoredRecord.isLive = versions'.findLast? StoredRecord.isLive := by
  rcases h with ⟨rfl, rfl⟩ | ⟨tip, htip, htip', -⟩
  · rfl
  · rw [htip.findLast?_isLive, htip'.findLast?_isLive]

theorem buildReplacementRecord_header {schema : TableSchema} {input : RecordInput}
    {record : StoredRecord}
    (h : buildReplacementRecord sourceHash schema input e = .ok record) :
    record.header = newHeader input.table input.tenantId input.id e := by
  simp only [buildReplacementRecord, Except.bind_eq_ok_iff, Except.guard_eq_ok_iff] at h
  obtain ⟨_, _, _, _, _, _, _, h⟩ := h
  obtain rfl := Except.ok.inj h
  rfl

theorem buildMutationRecord_header {schema : TableSchema} {input : RecordInput}
    {previous : Option StoredRecord} {record : StoredRecord}
    (h : buildMutationRecord sourceHash schema input previous e = .ok record) :
    record.header = newHeader input.table input.tenantId input.id e := by
  simp only [buildMutationRecord, Except.bind_eq_ok_iff, Except.guard_eq_ok_iff] at h
  obtain ⟨_, _, _, _, _, _, _, h⟩ := h
  obtain rfl := Except.ok.inj h
  rfl

/-- A write that only looks at the tip of its key. -/
def TipWrite (epoch : Epoch) (key : String) (write : Versions → Result Versions) : Prop :=
  ∀ versions versions', SameTip epoch key versions versions' →
    SameResult (SharedTip epoch key) (write versions) (write versions')

theorem tipWrite_replaceVersions (sourceHash : Fields → List String → ℕ) (schema : TableSchema)
    (input : RecordInput) (he : e ≤ epoch) :
    TipWrite epoch (recordKey input.table input.tenantId input.id)
      (replaceVersions sourceHash schema input e) := by
  intro versions versions' h
  unfold replaceVersions
  cases hbuild : buildReplacementRecord sourceHash schema input e with
  | error err => exact rfl
  | ok record =>
    have hheader := buildReplacementRecord_header hbuild
    refine h.closeCurrent_append he (by rw [hheader]; rfl) (by rw [hheader]; exact he) ?_
    rw [StoredRecord.key, hheader]
    rfl

theorem tipWrite_mutateVersions (sourceHash : Fields → List String → ℕ) (schema : TableSchema)
    (input : RecordInput) (he : e ≤ epoch) :
    TipWrite epoch (recordKey input.table input.tenantId input.id)
      (mutateVersions sourceHash schema input e) := by
  intro versions versions' h
  simp only [mutateVersions, h.findLast?_isLive]
  cases hbuild : buildMutationRecord sourceHash schema input
      (versions'.findLast? StoredRecord.isLive) e with
  | error err => exact rfl
  | ok record =>
    have hheader := buildMutationRecord_header hbuild
    refine h.closeCurrent_append he (by rw [hheader]; rfl) (by rw [hheader]; exact he) ?_
    rw [StoredRecord.key, hheader]
    rfl

theorem tipWrite_deleteVersions (schema : TableSchema) (deletion : RecordDeletion)
    (he : e ≤ epoch) :
    TipWrite epoch (recordKey deletion.table deletion.tenantId deletion.id)
      (deleteVersions schema deletion e) := by
  intro versions versions' h
  unfold deleteVersions
  refine SameResult.bind SameResult.refl fun _ _ _ => ?_
  rcases h with ⟨rfl, rfl⟩ | ⟨tip, htip, htip', -⟩
  · exact rfl
  · rw [htip.findLast?_isLive, htip'.findLast?_isLive]
    by_cases hlive : tip.isLive = true
    · rw [if_pos hlive]
      exact ⟨_, htip.append he rfl he hlive, htip'.append he rfl he hlive, rfl⟩
    · rw [if_neg hlive]
      exact rfl

theorem tipWrite_invalidateVersions (invalidation : FeatureInvalidation) :
    TipWrite epoch
      (recordKey invalidation.table invalidation.tenantId invalidation.recordId)
      (invalidateVersions invalidation e) := by
  intro versions versions' h
  unfold invalidateVersions
  rcases h with ⟨rfl, rfl⟩ | ⟨tip, htip, htip', hkey⟩
  · exact rfl
  · rw [htip.findLast?_isLive, htip'.findLast?_isLive]
    by_cases hlive : tip.isLive = true
    · simp only [hlive, if_true]
      split_ifs
      · refine ⟨_, htip.setFeature hlive, htip'.setFeature hlive, ?_⟩
        rw [← hkey]
        unfold StoredRecord.setFeature
        split <;> rfl
      · exact rfl
    · simp only [hlive]
      exact rfl

/-! ### Stores -/

/-- Two stores with the same keys and the same tips. -/
def SameTips (epoch : Epoch) (s t : RecordStore) : Prop :=
  ∀ key : String, match s.versions[key]?, t.versions[key]? with
    | none, none => True
    | some versions, some versions' => SharedTip epoch key versions versions'
    | _, _ => False

namespace SameTips

variable {s t : RecordStore}

theorem none_or_some (h : SameTips epoch s t) (key : String) :
    (s.versions[key]? = none ∧ t.versions[key]? = none) ∨
      ∃ versions versions', s.versions[key]? = some versions ∧
        t.versions[key]? = some versions' ∧ SharedTip epoch key versions versions' := by
  have hkey := h key
  cases hs : s.versions[key]? with
  | none =>
    cases ht : t.versions[key]? with
    | none => exact .inl ⟨rfl, rfl⟩
    | some versions' => simp [hs, ht] at hkey
  | some versions =>
    cases ht : t.versions[key]? with
    | none => simp [hs, ht] at hkey
    | some versions' =>
      simp only [hs, ht] at hkey
      exact .inr ⟨versions, versions', rfl, rfl, hkey⟩

theorem mono {epoch' : Epoch} (h : SameTips epoch s t) (hle : epoch ≤ epoch') :
    SameTips epoch' s t := by
  intro key
  rcases h.none_or_some key with ⟨hs, ht⟩ | ⟨versions, versions', hs, ht, tip, htip, htip', hkey⟩
  · simp [hs, ht]
  · simp only [hs, ht]
    exact ⟨tip, htip.mono hle, htip'.mono hle, hkey⟩

theorem versionsAt (h : SameTips epoch s t) (key : String) :
    SameTip epoch key (s.versionsAt key) (t.versionsAt key) := by
  rcases h.none_or_some key with ⟨hs, ht⟩ | ⟨versions, versions', hs, ht, htip⟩
  · exact .inl ⟨by simp [RecordStore.versionsAt, hs], by simp [RecordStore.versionsAt, ht]⟩
  · simp only [RecordStore.versionsAt, hs, ht, Option.getD_some]
    exact .inr htip

theorem set (h : SameTips epoch s t) {versions versions' : Versions}
    (htip : SharedTip epoch key versions versions') :
    SameTips epoch (s.set key versions) (t.set key versions') := by
  intro key'
  simp only [RecordStore.getElem?_set]
  by_cases hkey : key = key'
  · subst hkey
    simp only [if_true]
    exact htip
  · simp only [hkey, if_false]
    exact h key'

/-- **Writes fail alike and keep the tips the same.** -/
theorem applyAt (h : SameTips epoch s t) {write : Versions → Result Versions}
    (hwrite : TipWrite epoch key write) :
    SameResult (SameTips epoch) (s.applyAt key write) (t.applyAt key write) := by
  unfold RecordStore.applyAt
  exact (hwrite _ _ (h.versionsAt key)).bind fun versions versions' htip => h.set htip

/-- The same for planned writes, after the deltas are installed. -/
theorem planAt {delta delta' : RecordStoreDelta}
    (h : SameTips epoch (s.applyDelta delta) (t.applyDelta delta'))
    {write : Versions → Result Versions} (hwrite : TipWrite epoch key write) :
    SameResult (fun d d' => SameTips epoch (s.applyDelta d) (t.applyDelta d'))
      (s.planAt delta key write) (t.planAt delta' key write) := by
  rw [← SameResult.map, RecordStore.applyDelta_planAt, RecordStore.applyDelta_planAt]
  exact h.applyAt hwrite

theorem empty : SameTips epoch RecordStore.empty RecordStore.empty := by
  intro key
  simp [RecordStore.empty]

/-! ### Reads at the latest epoch -/

/-- Searches from the end that closed versions do not satisfy agree. -/
theorem findLast?_eq (h : SameTips epoch s t) {p : StoredRecord → Bool}
    (hp : ∀ record e, record.header.endEpoch = some e → e ≤ epoch → p record = false)
    (key : String) :
    s.versions[key]?.map (List.findLast? p) = t.versions[key]?.map (List.findLast? p) := by
  rcases h.none_or_some key with ⟨hs, ht⟩ | ⟨versions, versions', hs, ht, tip, htip, htip', -⟩
  · rw [hs, ht]
  · rw [hs, ht, Option.map_some, Option.map_some, htip.findLast? hp, htip'.findLast? hp]

theorem visible_eq (h : SameTips epoch s t) (key : String) :
    (s.versions[key]?.map fun versions => RecordStore.visibleRecordAt versions epoch) =
      t.versions[key]?.map fun versions => RecordStore.visibleRecordAt versions epoch := by
  refine h.findLast?_eq (fun record e he hle => ?_) key
  simp [StoredRecord.isVisible, Tip.isVisible_closed he hle]

theorem getRecord (h : SameTips epoch s t) (table tenantId recordId : String) :
    s.getRecord table tenantId recordId epoch = t.getRecord table tenantId recordId epoch := by
  have hvisible := h.visible_eq (recordKey table tenantId recordId)
  have hbind := congrArg (fun o => o.bind id) hvisible
  simp only [Option.bind_map, Function.id_comp] at hbind
  exact hbind

theorem isTombstonedAt (h : SameTips epoch s t) (table tenantId recordId : String) :
    s.isTombstonedAt table tenantId recordId epoch =
      t.isTombstonedAt table tenantId recordId epoch := by
  have hspans := h.findLast?_eq (fun record e => Tip.isVisible_closed)
    (recordKey table tenantId recordId)
  have hbind := congrArg (fun o => o.bind id) hspans
  simp only [Option.bind_map, Function.id_comp] at hbind
  simp only [RecordStore.isTombstonedAt]
  rw [hbind]

/-- The visible records by key, in the order of the keys. -/
theorem visible_toList (h : SameTips epoch s t) :
    (s.versions.toList.map fun entry => (entry.1, RecordStore.visibleRecordAt entry.2 epoch)) =
      t.versions.toList.map fun entry => (entry.1, RecordStore.visibleRecordAt entry.2 epoch) :=
  SortedMap.toList_map_congr h.visible_eq

theorem visibleRecordsAt (h : SameTips epoch s t) (table tenantId : String) :
    s.visibleRecordsAt table tenantId epoch = t.visibleRecordsAt table tenantId epoch := by
  have hfactor : ∀ u : RecordStore, u.visibleRecordsAt table tenantId epoch =
      ((u.versions.toList.map fun entry =>
        (entry.1, RecordStore.visibleRecordAt entry.2 epoch)).filter fun entry =>
          (recordKeyPrefix table tenantId).toList.isPrefixOf entry.1.toList).filterMap (·.2) := by
    intro u
    rw [RecordStore.visibleRecordsAt, SortedMap.takeWhile_prefix_range _
      Std.ExtTreeMap.ordered_keys_toList, List.filter_map, List.filterMap_map]
    rfl
  rw [hfactor, hfactor, h.visible_toList]

theorem snapshot (h : SameTips epoch s t) : s.snapshot epoch = t.snapshot epoch := by
  have hfactor : ∀ u : RecordStore, u.snapshot epoch =
      (u.versions.toList.map fun entry =>
        (entry.1, RecordStore.visibleRecordAt entry.2 epoch)).filterMap (·.2) := by
    intro u
    rw [List.filterMap_map]
    rfl
  rw [hfactor, hfactor, h.visible_toList]

theorem featureState (h : SameTips epoch s t) (table tenantId recordId feature : String) :
    s.featureState table tenantId recordId feature epoch =
      t.featureState table tenantId recordId feature epoch := by
  let p : StoredRecord → Bool := fun record => decide (record.header.tableId = table) &&
    decide (record.header.tenantId = tenantId) && decide (record.header.recordId = recordId) &&
    record.isVisible epoch
  have hp : ∀ record e, record.header.endEpoch = some e → e ≤ epoch → p record = false := by
    intro record e he hle
    simp [p, StoredRecord.isVisible, Tip.isVisible_closed he hle]
  have hlist := SortedMap.toList_map_congr (h.findLast?_eq hp)
  have hfactor : ∀ u : RecordStore, u.featureState table tenantId recordId feature epoch =
      (u.versions.toList.map fun entry => (entry.1, entry.2.findLast? p)).findSome? fun entry =>
        entry.2.bind fun record => record.features[feature]? := by
    intro u
    rw [List.findSome?_map]
    rfl
  rw [hfactor, hfactor, hlist]

end SameTips

/-! ### Rebuilding a store from its checkpoint records -/

/-- Records of different keys are stored one under each key. -/
theorem getElem?_foldl_set {records : List StoredRecord} {store : RecordStore}
    (hnodup : (records.map (·.key)).Nodup)
    (hnew : ∀ record ∈ records, store.versions[record.key]? = none) (key : String) :
    (records.foldl (fun store record =>
        store.set record.key (store.versionsAt record.key ++ [record])) store).versions[key]? =
      match records.find? fun record => record.key = key with
      | some record => some [record]
      | none => store.versions[key]? := by
  induction records generalizing store with
  | nil => rfl
  | cons record records ih =>
    rw [List.map_cons, List.nodup_cons] at hnodup
    have hnone : store.versions[record.key]? = none := hnew record List.mem_cons_self
    have hfresh : store.versionsAt record.key = [] := by simp [RecordStore.versionsAt, hnone]
    have hlater : ∀ record' ∈ records,
        (store.set record.key [record]).versions[record'.key]? = none := by
      intro record' hmem
      have hne : record.key ≠ record'.key := by
        intro heq
        exact hnodup.1 (List.mem_map.2 ⟨record', hmem, heq.symm⟩)
      rw [RecordStore.getElem?_set, if_neg hne]
      exact hnew record' (List.mem_cons_of_mem _ hmem)
    rw [List.foldl_cons, hfresh, List.nil_append, ih hnodup.2 hlater, RecordStore.getElem?_set,
      List.find?_cons]
    by_cases hkey : record.key = key
    · have hnot : records.find? (fun record => decide (record.key = key)) = none := by
        rw [List.find?_eq_none]
        intro record' hmem heq
        exact hnodup.1 (List.mem_map.2 ⟨record', hmem, (of_decide_eq_true heq).trans hkey.symm⟩)
      simp only [hnot, hkey, if_true, decide_true]
    · simp only [hkey, if_false, decide_false]

/-- The checkpoint records of a store are its tips, by key. -/
theorem SameTips.checkpointRecords {s : RecordStore} (h : SameTips epoch s s) :
    (s.checkpointRecords epoch).map (·.key) = s.versions.toList.map (·.1) ∧
      ∀ record ∈ s.checkpointRecords epoch, ∃ versions,
        s.versions[record.key]? = some versions ∧ Tip epoch versions record := by
  have htips : ∀ entry ∈ s.versions.toList, ∃ tip,
      (entry.2.findLast? fun record => record.spans epoch) = some tip ∧ tip.key = entry.1 ∧
        Tip epoch entry.2 tip := by
    intro entry hentry
    have hget := SortedMap.mem_toList.1 hentry
    rcases h.none_or_some entry.1 with ⟨hs, -⟩ | ⟨versions, versions', hs, -, tip, htip, -, hkey⟩
    · rw [hs] at hget
      cases hget
    · rw [hs] at hget
      obtain rfl := Option.some.inj hget
      exact ⟨tip, htip.findLast?_spans, hkey, htip⟩
  constructor
  · unfold RecordStore.checkpointRecords
    generalize s.versions.toList = entries at htips
    induction entries with
    | nil => rfl
    | cons entry entries ih =>
      obtain ⟨tip, hfind, hkey, -⟩ := htips entry List.mem_cons_self
      rw [List.filterMap_cons, hfind, List.map_cons, List.map_cons, hkey,
        ih fun e he => htips e (List.mem_cons_of_mem _ he)]
  · intro record hrecord
    obtain ⟨entry, hentry, hfind⟩ := List.mem_filterMap.1 hrecord
    obtain ⟨tip, htip, hkey, hwf⟩ := htips entry hentry
    obtain rfl := Option.some.inj (htip.symm.trans hfind)
    rw [hkey]
    exact ⟨entry.2, SortedMap.mem_toList.1 hentry, hwf⟩

/-- **A checkpoint keeps the tips.** -/
theorem sameTips_fromCheckpointRecords {s : RecordStore} (h : SameTips epoch s s) :
    SameTips epoch s (.fromCheckpointRecords (s.checkpointRecords epoch)) := by
  obtain ⟨hkeys, htips⟩ := h.checkpointRecords
  have hnodup : ((s.checkpointRecords epoch).map (·.key)).Nodup := by
    rw [hkeys, List.nodup_iff_pairwise_ne, List.pairwise_map]
    refine List.Pairwise.imp ?_ Std.ExtTreeMap.ordered_keys_toList
    intro a b hlt heq
    rw [heq] at hlt
    exact absurd hlt (by simp)
  intro key
  have hempty : ∀ key : String, RecordStore.empty.versions[key]? = none := by
    intro key
    simp [RecordStore.empty]
  have hget := getElem?_foldl_set hnodup (fun record _ => hempty record.key) key
  rw [show (RecordStore.fromCheckpointRecords (s.checkpointRecords epoch)).versions[key]? = _
    from hget]
  cases hfind : (s.checkpointRecords epoch).find? fun record => decide (record.key = key) with
  | some record =>
    obtain ⟨versions, hversions, htip⟩ := htips record (List.mem_of_find?_eq_some hfind)
    have hkey : record.key = key := by simpa using List.find?_some hfind
    rw [hkey] at hversions
    obtain ⟨older, heq, hend, hbegin, holder⟩ := htip
    simp only [hversions]
    exact ⟨record, ⟨older, heq, hend, hbegin, holder⟩, tip_singleton hend hbegin, hkey⟩
  | none =>
    have hnone : s.versions[key]? = none := by
      cases hs : s.versions[key]? with
      | none => rfl
      | some versions =>
        have hmem : key ∈ (s.checkpointRecords epoch).map (·.key) := by
          rw [hkeys]
          exact List.mem_map.2 ⟨(key, versions), SortedMap.mem_toList.2 hs, rfl⟩
        obtain ⟨record, hrecord, hkey⟩ := List.mem_map.1 hmem
        have := List.find?_eq_none.1 hfind record hrecord
        simp [hkey] at this
    simp only [hnone, hempty]

end TraceDB
