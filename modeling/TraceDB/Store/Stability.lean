import TraceDB.Store.Chains

/-!
# What is seen at an old epoch

A reader at an epoch sees, for every key, the version that spans the epoch.  Writes at later epochs
leave it alone, with one exception: a feature invalidation sets the state of a feature in the live
version of a record, which may be the version the reader sees.

* `SeenAlike touched r r'` : the same version, apart from its end and from the status of the
  features that were touched while it was live.
* `StoreStep` : a direct write with the store it leaves, or a list of planned writes.
* `seen_stable` : along every run at increasing epochs, what is seen at an epoch that has passed
  stays alike, key by key and in the lists of `visible_records_at`.
-/

namespace TraceDB

variable {sourceHash : Fields → List String → ℕ}

/-! ### Versions that look alike -/

/-- A feature state: the same, or with another status if it was touched. -/
inductive StateAlike (touched : Prop) :
    Option DerivedFeatureState → Option DerivedFeatureState → Prop
  | same (state : Option DerivedFeatureState) : StateAlike touched state state
  | status {state : DerivedFeatureState} (status : FeatureStatus) (epoch : Epoch) : touched →
      StateAlike touched (some state) (some { state with status := status, validForEpoch := epoch })

/-- The same version: only its end and the status of touched features may differ, and nothing
differs once it has an end. -/
structure SeenAlike (touched : String → Prop) (r r' : StoredRecord) : Prop where
  header : { r'.header with endEpoch := r.header.endEpoch } = r.header
  fields : r'.fields = r.fields
  features : ∀ feature, StateAlike (touched feature) r.features[feature]? r'.features[feature]?
  ended : r.header.endEpoch ≠ none → r' = r

theorem StateAlike.mono {P Q : Prop} (h : P → Q) {a b : Option DerivedFeatureState}
    (hab : StateAlike P a b) : StateAlike Q a b := by
  cases hab with
  | same => exact .same _
  | status status epoch htouched => exact .status status epoch (h htouched)

theorem StateAlike.trans {P : Prop} {a b c : Option DerivedFeatureState} (hab : StateAlike P a b)
    (hbc : StateAlike P b c) : StateAlike P a c := by
  cases hab with
  | same => exact hbc
  | status status epoch htouched =>
    cases hbc with
    | same => exact .status status epoch htouched
    | status status' epoch' _ => exact .status status' epoch' htouched

namespace SeenAlike

variable {touched touched' : String → Prop} {r r' r'' : StoredRecord}

theorem refl (r : StoredRecord) : SeenAlike touched r r :=
  ⟨rfl, rfl, fun _ => .same _, fun _ => rfl⟩

theorem mono (h : ∀ feature, touched feature → touched' feature) (hr : SeenAlike touched r r') :
    SeenAlike touched' r r' :=
  ⟨hr.header, hr.fields, fun feature => (hr.features feature).mono (h feature), hr.ended⟩

theorem trans (h : SeenAlike touched r r') (h' : SeenAlike touched r' r'') :
    SeenAlike touched r r'' where
  header := by
    rw [← h.header, ← h'.header]
  fields := h'.fields.trans h.fields
  features feature := (h.features feature).trans (h'.features feature)
  ended hend := by
    obtain rfl := h.ended hend
    exact h'.ended hend

theorem endAt (hcurrent : r.isCurrent = true) (epoch : Epoch) :
    SeenAlike touched r (r.endAt epoch) where
  header := rfl
  fields := rfl
  features _ := .same _
  ended hend := absurd (Option.isNone_iff_eq_none.1 hcurrent) hend

theorem setFeature (hcurrent : r.isCurrent = true) {feature : String} (htouched : touched feature)
    (status : FeatureStatus) (epoch : Epoch) :
    SeenAlike touched r (r.setFeature feature status epoch) where
  header := by rw [StoredRecord.header_setFeature]
  fields := by
    unfold StoredRecord.setFeature
    split <;> rfl
  features other := by
    unfold StoredRecord.setFeature
    cases hstate : r.features[feature]? with
    | none => exact .same _
    | some state =>
      simp only [Std.ExtTreeMap.getElem?_insert, Std.LawfulEqCmp.compare_eq_iff_eq]
      split_ifs with heq
      · subst heq
        rw [hstate]
        exact .status status epoch htouched
      · exact .same _
  ended hend := absurd (Option.isNone_iff_eq_none.1 hcurrent) hend

end SeenAlike

/-! ### One write -/

/-- What is seen at an epoch before and after: nothing both times, or versions that are alike. -/
abbrev SeenRel (touched : String → Prop) : Option StoredRecord → Option StoredRecord → Prop :=
  Option.Rel (SeenAlike touched)

theorem SeenRel.refl {touched : String → Prop} (seen : Option StoredRecord) :
    SeenRel touched seen seen := by
  cases seen with
  | none => exact .none
  | some r => exact .some (.refl r)

theorem SeenRel.trans {touched : String → Prop} {a b c : Option StoredRecord}
    (hab : SeenRel touched a b) (hbc : SeenRel touched b c) : SeenRel touched a c := by
  cases hab with
  | none => exact hbc
  | some h =>
    cases hbc with
    | some h' => exact .some (h.trans h')

theorem SeenRel.mono {touched touched' : String → Prop}
    (h : ∀ feature, touched feature → touched' feature) {a b : Option StoredRecord}
    (hab : SeenRel touched a b) : SeenRel touched' a b := by
  cases hab with
  | none => exact .none
  | some hr => exact .some (hr.mono h)

theorem StoredRecord.isVisible_endAt {record : StoredRecord} (hcurrent : record.isCurrent = true)
    {e epoch : Epoch} (he : e < epoch) : (record.endAt epoch).isVisible e = record.isVisible e := by
  have hend : record.header.endEpoch = none := Option.isNone_iff_eq_none.1 hcurrent
  have hspans : (record.endAt epoch).spans e = record.spans e := by
    rw [spans, spans, hend]
    exact congrArg (decide (record.header.beginEpoch ≤ e) && ·) (decide_eq_true he)
  rw [isVisible, isVisible, hspans]
  rfl

theorem StoredRecord.isVisible_setFeature (record : StoredRecord) (feature : String)
    (status : FeatureStatus) (epoch e : Epoch) :
    (record.setFeature feature status epoch).isVisible e = record.isVisible e := by
  rw [isVisible, isVisible, spans, spans, header_setFeature]

theorem StoredRecord.isCurrent_of_isLive {record : StoredRecord} (h : record.isLive = true) :
    record.isCurrent = true := (Bool.and_eq_true_iff.1 h).1

namespace RecordStore

variable {touched : String → Prop} {e epoch : Epoch}

/-- Changing the last version with a property, so that versions with it stay alike and as
visible. -/
theorem seenRel_modifyLastWhere {p : StoredRecord → Bool} {f : StoredRecord → StoredRecord}
    (hvisible : ∀ r, p r = true → (f r).isVisible e = r.isVisible e)
    (halike : ∀ r, p r = true → SeenAlike touched r (f r)) (versions : Versions) :
    SeenRel touched (visibleRecordAt versions e)
      (visibleRecordAt (versions.modifyLastWhere p f) e) := by
  unfold visibleRecordAt
  rcases List.findLast?_modifyLastWhere (q := fun r => r.isVisible e) hvisible versions
    with heq | ⟨r, hr, hfound, hchanged⟩
  · rw [heq]
    exact .refl _
  · rw [hfound, hchanged]
    exact .some (halike r hr)

/-- Ending a version later than the epoch. -/
theorem seenRel_endAt {p : StoredRecord → Bool} (hp : ∀ r, p r = true → r.isCurrent = true)
    (he : e < epoch) (versions : Versions) :
    SeenRel touched (visibleRecordAt versions e)
      (visibleRecordAt (versions.modifyLastWhere p (·.endAt epoch)) e) :=
  seenRel_modifyLastWhere (fun r hr => r.isVisible_endAt (hp r hr) he)
    (fun r hr => .endAt (hp r hr) epoch) versions

/-- **A write later than an epoch leaves what is seen there alike.** -/
theorem seenRel_edits {write : StoreWrite} {versions versions' : Versions} (he : e < write.epoch)
    (h : write.Edits versions versions') :
    SeenRel (fun feature => write.Names write.target.key feature) (visibleRecordAt versions e)
      (visibleRecordAt versions' e) := by
  cases h with
  | @appends p record hp hbegin _ =>
    have hnot : ¬ record.isVisible e = true := by
      simp [StoredRecord.isVisible, StoredRecord.spans, hbegin, he]
    have hcurrent : ∀ r, p r = true → r.isCurrent = true := by
      rcases hp with rfl | ⟨rfl, -⟩
      · exact fun r hr => hr
      · exact fun r hr => r.isCurrent_of_isLive hr
    have happend : visibleRecordAt
        (versions.modifyLastWhere p (·.endAt write.epoch) ++ [record]) e =
        visibleRecordAt (versions.modifyLastWhere p (·.endAt write.epoch)) e := by
      rw [visibleRecordAt, List.findLast?_append_singleton, if_neg hnot]
      rfl
    rw [happend]
    exact seenRel_endAt hcurrent he versions
  | sets _ hnames =>
    exact seenRel_modifyLastWhere (fun r _ => r.isVisible_setFeature ..)
      (fun r hr => .setFeature (r.isCurrent_of_isLive hr) hnames ..) versions

end RecordStore

/-! ### Runs -/

/-- An operation on the store: a direct write, or planned writes installed together. -/
inductive StoreStep where
  | direct (write : StoreWrite)
  | planned (writes : List StoreWrite)

namespace StoreStep

/-- The writes of an operation. -/
def writes : StoreStep → List StoreWrite
  | .direct write => [write]
  | .planned writes => writes

variable (sourceHash) in
/-- The store after an operation, also after one that fails. -/
def after (store : RecordStore) : StoreStep → RecordStore
  | .direct write => (write.perform sourceHash store).2
  | .planned writes =>
    match store.planAll sourceHash 0 .empty writes with
    | .ok delta => store.applyDelta delta
    | .error _ => store

end StoreStep

variable (sourceHash) in
/-- The store after operations at their epochs. -/
def RecordStore.runSteps (store : RecordStore) (steps : List (Epoch × StoreStep)) : RecordStore :=
  steps.foldl (fun store step => step.2.after sourceHash store) store

/-- Every operation writes at its epoch, and the epochs increase from the current one. -/
structure Increasing (now : Epoch) (steps : List (Epoch × StoreStep)) : Prop where
  at_epoch : ∀ step ∈ steps, ∀ write ∈ step.2.writes, write.epoch = step.1
  increasing : (now :: steps.map Prod.fst).Pairwise (· < ·)

/-- Some of the operations is a feature invalidation that names the key and the feature. -/
def Touched (steps : List (Epoch × StoreStep)) (key feature : String) : Prop :=
  ∃ step ∈ steps, ∃ write ∈ step.2.writes, write.Names key feature

namespace RecordStore

variable {e : Epoch} {store : RecordStore}

/-- What is seen at an epoch under a key. -/
def seenAt (store : RecordStore) (key : String) (epoch : Epoch) : Option StoredRecord :=
  store.versions[key]?.bind fun versions => visibleRecordAt versions epoch

theorem seenAt_eq (store : RecordStore) (key : String) (epoch : Epoch) :
    store.seenAt key epoch = visibleRecordAt (store.versionsAt key) epoch := by
  unfold seenAt versionsAt
  cases store.versions[key]? <;> rfl

/-- Storing versions under a key that are seen alike. -/
theorem seenRel_set (touched : String → String → Prop) {key : String} {versions : Versions}
    (h : SeenRel (touched key) (visibleRecordAt (store.versionsAt key) e)
      (visibleRecordAt versions e))
    (key' : String) :
    SeenRel (touched key') (store.seenAt key' e) ((store.set key versions).seenAt key' e) := by
  rw [seenAt_eq, seenAt_eq, versionsAt_set]
  split_ifs with hkey
  · subst hkey
    exact h
  · exact .refl _

variable (sourceHash) in
/-- A direct write, whether it succeeds or not. -/
theorem seenRel_perform (write : StoreWrite) (he : e < write.epoch) (store : RecordStore)
    (key : String) :
    SeenRel (fun feature => write.Names key feature) (store.seenAt key e)
      ((write.perform sourceHash store).2.seenAt key e) := by
  have hperform : StoreWrite.Performs sourceHash write store _ := write.performs store
  generalize write.perform sourceHash store = out at hperform ⊢
  cases hperform with
  | ok hwrite _ =>
    exact seenRel_set (fun key feature => write.Names key feature)
      (seenRel_edits he (StoreWrite.edits hwrite)) key
  | refused _ _ => exact .refl _
  | late _ _ =>
    exact seenRel_set (fun key feature => write.Names key feature)
      (seenRel_endAt (fun _ hr => hr) he _) key

/-- Direct writes one after the other. -/
theorem seenRel_performAll {writes : List StoreWrite} (he : ∀ write ∈ writes, e < write.epoch)
    {index : ℕ} {store' : RecordStore} (h : performAll sourceHash index store writes = .ok store')
    (key : String) :
    SeenRel (fun feature => ∃ write ∈ writes, write.Names key feature) (store.seenAt key e)
      (store'.seenAt key e) := by
  induction writes generalizing index store with
  | nil =>
    obtain rfl := Except.ok.inj h
    exact .refl _
  | cons write writes ih =>
    have hfirst := seenRel_perform sourceHash write (he write List.mem_cons_self) store key
    rw [performAll] at h
    rcases hperform : write.perform sourceHash store with ⟨e' | _, left⟩
    · rw [hperform] at h
      cases h
    · rw [hperform] at h hfirst
      have hrest := ih (fun w hw => he w (List.mem_cons_of_mem _ hw)) h
      refine (hfirst.mono fun feature hnames => ?_).trans (hrest.mono fun feature hnames => ?_)
      · exact ⟨write, List.mem_cons_self, hnames⟩
      · obtain ⟨write', hmem, hnames⟩ := hnames
        exact ⟨write', List.mem_cons_of_mem _ hmem, hnames⟩

variable (sourceHash) in
/-- One operation. -/
theorem seenRel_after (step : StoreStep) (he : ∀ write ∈ step.writes, e < write.epoch)
    (store : RecordStore) (key : String) :
    SeenRel (fun feature => ∃ write ∈ step.writes, write.Names key feature) (store.seenAt key e)
      ((step.after sourceHash store).seenAt key e) := by
  cases step with
  | direct write =>
    refine (seenRel_perform sourceHash write (he write List.mem_cons_self) store key).mono
      fun feature h => ?_
    exact ⟨write, List.mem_cons_self, h⟩
  | planned writes =>
    rw [StoreStep.after]
    cases hplan : store.planAll sourceHash 0 .empty writes with
    | error failed => exact .refl _
    | ok delta =>
      have hperform : (store.planAll sourceHash 0 .empty writes).map store.applyDelta = _ :=
        planAll_eq_performAll store 0 .empty writes
      rw [hplan, applyDelta_empty] at hperform
      exact seenRel_performAll he hperform.symm key

variable (sourceHash) in
/-- Whole runs. -/
theorem seenRel_runSteps {now : Epoch} {steps : List (Epoch × StoreStep)} (h : Increasing now steps)
    (he : e ≤ now) (store : RecordStore) (key : String) :
    SeenRel (Touched steps key) (store.seenAt key e)
      ((store.runSteps sourceHash steps).seenAt key e) := by
  induction steps generalizing store now with
  | nil => exact .refl _
  | cons step steps ih =>
    obtain ⟨hfirst, hincreasing⟩ := List.pairwise_cons.1 h.increasing
    have hnow : now < step.1 := hfirst step.1 (by simp)
    have hlater : ∀ write ∈ step.2.writes, e < write.epoch := by
      intro write hwrite
      rw [h.at_epoch step List.mem_cons_self write hwrite]
      exact lt_of_le_of_lt he hnow
    have hrest : Increasing step.1 steps :=
      ⟨fun s hs => h.at_epoch s (List.mem_cons_of_mem _ hs), hincreasing⟩
    have hone := seenRel_after sourceHash step.2 hlater store key
    have hmore := ih hrest (he.trans hnow.le) (step.2.after sourceHash store)
    refine (hone.mono fun feature htouched => ?_).trans (hmore.mono fun feature htouched => ?_)
    · exact ⟨step, List.mem_cons_self, htouched⟩
    · obtain ⟨step', hmem, htouched⟩ := htouched
      exact ⟨step', List.mem_cons_of_mem _ hmem, htouched⟩

/-- What a scan takes from the versions of a key. -/
def scanned (table tenantId : String) (epoch : Epoch) (key : String) (versions : Versions) :
    Option StoredRecord :=
  if (recordKeyPrefix table tenantId).toList.isPrefixOf key.toList then
    visibleRecordAt versions epoch
  else none

theorem visibleRecordsAt_eq (store : RecordStore) (table tenantId : String) (epoch : Epoch) :
    store.visibleRecordsAt table tenantId epoch =
      store.versions.toList.filterMap fun e => scanned table tenantId epoch e.1 e.2 := by
  rw [visibleRecordsAt, SortedMap.takeWhile_prefix_range _ Std.ExtTreeMap.ordered_keys_toList,
    List.filterMap_filter]
  rfl

/-- It is what is seen under the key, or nothing without the prefix. -/
theorem bind_scanned (store : RecordStore) (table tenantId : String) (epoch : Epoch)
    (key : String) :
    store.versions[key]?.bind (scanned table tenantId epoch key) =
      if (recordKeyPrefix table tenantId).toList.isPrefixOf key.toList then store.seenAt key epoch
      else none := by
  unfold scanned
  split_ifs
  · rfl
  · cases store.versions[key]? <;> rfl

/-- Stores related key by key at an epoch list related records. -/
theorem forall₂_visibleRecordsAt {store store' : RecordStore}
    {R : String → StoredRecord → StoredRecord → Prop}
    (h : ∀ key, Option.Rel (R key) (store.seenAt key e) (store'.seenAt key e))
    (table tenantId : String) :
    List.Forall₂ (fun r r' => ∃ key, store.seenAt key e = some r ∧ store'.seenAt key e = some r' ∧
        R key r r')
      (store.visibleRecordsAt table tenantId e) (store'.visibleRecordsAt table tenantId e) := by
  rw [visibleRecordsAt_eq, visibleRecordsAt_eq]
  have hlists := SortedMap.forall₂_filterMap (t := store.versions) (u := store'.versions)
    (f := scanned table tenantId e) (g := scanned table tenantId e) (R := R) fun key => ?_
  · refine hlists.imp ?_
    rintro r r' ⟨key, hr, hr', halike⟩
    rw [bind_scanned] at hr hr'
    split_ifs at hr hr'
    exact ⟨key, hr, hr', halike⟩
  · rw [bind_scanned, bind_scanned]
    split_ifs
    · exact h key
    · exact .none

end RecordStore

/-- **What is seen at an epoch that has passed stays alike.**  From any store at any current epoch,
along every run of operations at increasing later epochs, under every key and in every list of
`visible_records_at`: the same versions are seen at an epoch up to the current one, with the same
fields.  The status of a feature differs only when a feature invalidation of the run names the key
and the feature, and nothing differs once the version has an end. -/
theorem seen_stable {now e : Epoch} {steps : List (Epoch × StoreStep)} (h : Increasing now steps)
    (he : e ≤ now) (store : RecordStore) :
    (∀ key, SeenRel (Touched steps key) (store.seenAt key e)
      ((store.runSteps sourceHash steps).seenAt key e)) ∧
    ∀ table tenantId, List.Forall₂
      (fun r r' => ∃ key, store.seenAt key e = some r ∧
        (store.runSteps sourceHash steps).seenAt key e = some r' ∧
        SeenAlike (Touched steps key) r r')
      (store.visibleRecordsAt table tenantId e)
      ((store.runSteps sourceHash steps).visibleRecordsAt table tenantId e) := by
  have hkeys := RecordStore.seenRel_runSteps sourceHash h he store
  exact ⟨hkeys, RecordStore.forall₂_visibleRecordsAt hkeys⟩

/-- A table with a vector column. -/
def vectorDocsSchema : TableSchema :=
  ⟨"docs", "id", "tenant", ["body"], [], [⟨"embedding", 2, ["body"]⟩]⟩

/-- The embedding of the record fails, at epoch 3. -/
def failedEmbedding : List (Epoch × StoreStep) :=
  [(3, .direct (.invalidate ⟨"docs", "a", "b", "embedding", .failed⟩ 3))]

/-- The store of the example, with one record put at epoch 1. -/
def vectorDocsStore : RecordStore :=
  RecordStore.empty.runSteps (fun _ _ => 0)
    [(1, .planned [.replace vectorDocsSchema ⟨"docs", "b", "a", ∅⟩ 1])]

/-- At epoch 1 the record is seen with its version both times. -/
theorem seen_stable_embedding :
    SeenRel (Touched failedEmbedding (recordKey "docs" "a" "b"))
      (vectorDocsStore.seenAt (recordKey "docs" "a" "b") 1)
      ((vectorDocsStore.runSteps (fun _ _ => 0) failedEmbedding).seenAt
        (recordKey "docs" "a" "b") 1) :=
  (seen_stable ⟨by simp [failedEmbedding, StoreStep.writes, StoreWrite.epoch],
    by decide⟩ le_rfl vectorDocsStore).1 _

/-- The feature state seen at epoch 1 is changed by the invalidation at epoch 3. -/
theorem invalidation_changes_old_epoch :
    ((vectorDocsStore.getRecord "docs" "a" "b" 1).bind (·.features["embedding"]?)).map (·.status) =
        some .missing ∧
      (((vectorDocsStore.runSteps (fun _ _ => 0) failedEmbedding).getRecord "docs" "a" "b" 1).bind
        (·.features["embedding"]?)).map (·.status) = some .failed := by
  decide

end TraceDB
