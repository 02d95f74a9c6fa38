import Mathlib.Data.List.Chain
import TraceDB.Store.Planning
import TraceDB.Store.Tips

/-!
# Version chains

The versions of a key form a chain: each version ends where the next one begins, and only the last
one is open.  So at every epoch at most one version is visible.

* `StoreWrite.edits` : what a write does to the versions of its key.  It ends the last open version
  and appends one that begins now, or it sets a feature of the last live version.
* `VersionChain` : the invariant of one key, kept by every write that is not before the versions
  there are, also by several writes at one epoch (`VersionChain.onVersions`).
* `StorePlan` : the plans of `insert`, `put`, `put_batch`, `patch` and `delete`.
* `versions_form_chains` : every key of every store such plans build has a chain.
-/

namespace TraceDB

variable {sourceHash : Fields → List String → ℕ}

/-! ### What a write does to a version list -/

/-- The write is a feature invalidation of the feature, in the record with the key. -/
def StoreWrite.Names (key feature : String) : StoreWrite → Prop
  | .invalidate invalidation _ =>
    recordKey invalidation.table invalidation.tenantId invalidation.recordId = key ∧
      invalidation.feature = feature
  | _ => False

/-- The two ways a write changes the versions of its key. -/
inductive StoreWrite.Edits (write : StoreWrite) (versions : Versions) : Versions → Prop
  /-- It ends the last version that is open (or, for a deletion, live) and appends one. -/
  | appends {p : StoredRecord → Bool} {record : StoredRecord} :
      p = StoredRecord.isCurrent ∨
        p = StoredRecord.isLive ∧ (versions.findLast? StoredRecord.isLive).isSome = true →
      record.header.beginEpoch = write.epoch → record.header.endEpoch = none →
      Edits write versions (versions.modifyLastWhere p (·.endAt write.epoch) ++ [record])
  /-- It sets a feature of the last live version. -/
  | sets {feature : String} {status : FeatureStatus} :
      (versions.findLast? StoredRecord.isLive).isSome = true →
      write.Names write.target.key feature →
      Edits write versions (versions.modifyLastWhere StoredRecord.isLive
        (·.setFeature feature status write.epoch))

theorem StoreWrite.edits {write : StoreWrite} {versions versions' : Versions}
    (h : write.onVersions sourceHash versions = .ok versions') :
      write.Edits versions versions' := by
  cases write with
  | replace schema input epoch =>
    simp only [onVersions, replaceVersions, Except.bind_eq_ok_iff] at h
    obtain ⟨record, hrecord, h⟩ := h
    obtain rfl := Except.ok.inj h
    have hheader := buildReplacementRecord_header hrecord
    exact .appends (.inl rfl) (by rw [hheader]; rfl) (by rw [hheader]; rfl)
  | mutate schema mutation epoch =>
    simp only [onVersions, mutateVersions, Except.bind_eq_ok_iff] at h
    obtain ⟨record, hrecord, h⟩ := h
    obtain rfl := Except.ok.inj h
    have hheader := buildMutationRecord_header hrecord
    exact .appends (.inl rfl) (by rw [hheader]; rfl) (by rw [hheader]; rfl)
  | delete schema deletion epoch =>
    simp only [onVersions, deleteVersions, Except.bind_eq_ok_iff] at h
    obtain ⟨_, -, h⟩ := h
    cases hfind : versions.findLast? StoredRecord.isLive with
    | none =>
      rw [hfind] at h
      cases h
    | some previous =>
      rw [hfind] at h
      obtain rfl := Except.ok.inj h
      exact .appends (.inr ⟨rfl, by rw [hfind]; rfl⟩) rfl rfl
  | invalidate invalidation epoch =>
    simp only [onVersions, invalidateVersions] at h
    cases hfind : versions.findLast? StoredRecord.isLive with
    | none =>
      rw [hfind] at h
      cases h
    | some record =>
      rw [hfind] at h
      dsimp only at h
      split_ifs at h
      obtain rfl := Except.ok.inj h
      exact .sets (by rw [hfind]; rfl) ⟨rfl, rfl⟩

@[simp] theorem StoredRecord.header_setFeature (record : StoredRecord) (feature : String)
    (status : FeatureStatus) (epoch : Epoch) :
    (record.setFeature feature status epoch).header = record.header := by
  unfold StoredRecord.setFeature
  split <;> rfl

/-! ### Chains -/

/-- The second version begins where the first one ends. -/
def StoredRecord.EndsAt (a b : StoredRecord) : Prop :=
  a.header.beginEpoch ≤ b.header.beginEpoch ∧ a.header.endEpoch = some b.header.beginEpoch

/-- The versions of a key at an epoch: each ends where the next one begins, and the last one is open
and began by the epoch. -/
structure VersionChain (epoch : Epoch) (versions : Versions) : Prop where
  linked : versions.IsChain StoredRecord.EndsAt
  last_open : ∀ last ∈ versions.getLast?,
    last.header.endEpoch = none ∧ last.header.beginEpoch ≤ epoch

namespace VersionChain

variable {epoch epoch' : Epoch} {versions versions' : Versions}

theorem nil : VersionChain epoch [] := ⟨.nil, by simp⟩

theorem mono (h : VersionChain epoch versions) (hle : epoch ≤ epoch') :
    VersionChain epoch' versions :=
  ⟨h.linked, fun last hlast => (h.last_open last hlast).imp_right fun hbegin => hbegin.trans hle⟩

/-- Versions before an open last one all have an end. -/
theorem not_isCurrent {older : Versions} {last record : StoredRecord}
    (h : VersionChain epoch (older ++ [last])) (hrecord : record ∈ older) :
    ¬ record.isCurrent = true := by
  intro hcurrent
  obtain ⟨before, after, rfl⟩ := List.append_of_mem hrecord
  have hchain := h.linked
  rw [List.append_assoc, List.cons_append] at hchain
  have hnext : ∃ next rest, after ++ [last] = next :: rest := by
    cases after with
    | nil => exact ⟨last, [], rfl⟩
    | cons next rest => exact ⟨next, rest ++ [last], rfl⟩
  obtain ⟨next, rest, heq⟩ := hnext
  rw [heq] at hchain
  have hends := (List.isChain_cons_cons.1 hchain.right_of_append).1
  rw [StoredRecord.isCurrent, hends.2] at hcurrent
  cases hcurrent

/-- Ending the last version and appending one that begins there. -/
theorem append {older : Versions} {last record : StoredRecord}
    (h : VersionChain epoch (older ++ [last])) (hle : epoch ≤ epoch')
    (hbegin : record.header.beginEpoch = epoch') (hend : record.header.endEpoch = none) :
    VersionChain epoch' (older ++ [last.endAt epoch'] ++ [record]) := by
  obtain ⟨-, hlast⟩ := h.last_open last (by simp)
  refine ⟨?_, fun last' hlast' => ?_⟩
  · rw [List.isChain_append]
    refine ⟨?_, List.isChain_singleton _, fun a ha b hb => ?_⟩
    · obtain ⟨holder, -, hlink⟩ := List.isChain_append.1 h.linked
      refine List.isChain_append.2 ⟨holder, List.isChain_singleton _, fun a ha b hb => ?_⟩
      obtain rfl : last.endAt epoch' = b := by simpa using hb
      exact hlink a ha last rfl
    · obtain rfl : last.endAt epoch' = a := by simpa using ha
      obtain rfl : record = b := by simpa using hb
      exact ⟨(hlast.trans hle).trans hbegin.ge, by rw [hbegin]; rfl⟩
  · obtain rfl : record = last' := by simpa using hlast'
    exact ⟨hend, hbegin.le⟩

theorem setFeature {older : Versions} {last : StoredRecord}
    (h : VersionChain epoch (older ++ [last])) (feature : String) (status : FeatureStatus)
    (e : Epoch) : VersionChain epoch (older ++ [last.setFeature feature status e]) := by
  refine ⟨?_, fun last' hlast' => ?_⟩
  · obtain ⟨holder, -, hlink⟩ := List.isChain_append.1 h.linked
    refine List.isChain_append.2 ⟨holder, List.isChain_singleton _, fun a ha b hb => ?_⟩
    obtain rfl : last.setFeature feature status e = b := by simpa using hb
    rw [StoredRecord.EndsAt, StoredRecord.header_setFeature]
    exact hlink a ha last rfl
  · obtain rfl : last.setFeature feature status e = last' := by simpa using hlast'
    rw [StoredRecord.header_setFeature]
    exact h.last_open last (by simp)

/-- What is live in a chain is its last version. -/
theorem isLive_last {older : Versions} {last : StoredRecord}
    (h : VersionChain epoch (older ++ [last]))
    (hlive : ((older ++ [last]).findLast? StoredRecord.isLive).isSome = true) :
    last.isLive = true := by
  by_contra hlast
  rw [List.findLast?_append_singleton, if_neg hlast, Option.isSome_iff_exists] at hlive
  obtain ⟨record, hrecord⟩ := hlive
  have hcurrent := List.prop_of_findLast? hrecord
  rw [StoredRecord.isLive, Bool.and_eq_true] at hcurrent
  exact h.not_isCurrent (List.mem_of_findLast? hrecord) hcurrent.1

/-- **Every write keeps the chain**, at the epoch of the chain or later. -/
theorem edits {write : StoreWrite} (h : VersionChain epoch versions) (hle : epoch ≤ write.epoch)
    (hedits : write.Edits versions versions') : VersionChain write.epoch versions' := by
  rcases versions.eq_nil_or_concat with rfl | ⟨older, last, rfl⟩
  · -- The first version of the key.
    cases hedits with
    | appends _ hbegin hend =>
      exact ⟨List.isChain_singleton _, fun last hlast => by
        obtain rfl := Option.some.inj hlast
        exact ⟨hend, hbegin.le⟩⟩
    | sets hlive _ => cases hlive
  · rw [List.concat_eq_append] at h hedits
    cases hedits with
    | @appends p record hp hbegin hend =>
      have hlast : p last = true := by
        rcases hp with rfl | ⟨rfl, hlive⟩
        · rw [StoredRecord.isCurrent, (h.last_open last (by simp)).1]
          rfl
        · exact h.isLive_last hlive
      rw [List.modifyLastWhere_append_of_pos _ _ hlast]
      exact h.append hle hbegin hend
    | @sets feature status hlive _ =>
      rw [List.modifyLastWhere_append_of_pos _ _ (h.isLive_last hlive)]
      exact (h.setFeature feature status write.epoch).mono hle

/-- Of two versions the earlier one has an end, by the begin of the later one. -/
theorem pairwise (h : VersionChain epoch versions) :
    versions.Pairwise fun a b => a.header.beginEpoch ≤ b.header.beginEpoch ∧
      ∃ e, a.header.endEpoch = some e ∧ e ≤ b.header.beginEpoch := by
  have hchain : versions.IsChain fun a b => a.header.beginEpoch ≤ b.header.beginEpoch ∧
      ∃ e, a.header.endEpoch = some e ∧ e ≤ b.header.beginEpoch :=
    h.linked.imp fun a b hends => ⟨hends.1, _, hends.2, le_rfl⟩
  refine @List.IsChain.pairwise _ _ _ ⟨?_⟩ hchain
  rintro a b c ⟨hab, e, he, hle⟩ ⟨hbc, -⟩
  exact ⟨hab.trans hbc, e, he, hle.trans hbc⟩

/-- No two versions are visible at one epoch. -/
theorem length_visible_le (h : VersionChain epoch versions) (e : Epoch) :
    (versions.filter fun record => record.isVisible e).length ≤ 1 := by
  have hpairs := (h.pairwise.filter fun record => record.isVisible e)
  cases hvisible : versions.filter fun record => record.isVisible e with
  | nil => simp
  | cons a rest =>
    cases rest with
    | nil => simp
    | cons b rest =>
      rw [hvisible] at hpairs
      have hseen : ∀ record ∈ a :: b :: rest, record.isVisible e = true := by
        intro record hrecord
        rw [← hvisible] at hrecord
        exact (List.mem_filter.1 hrecord).2
      obtain ⟨-, last, hlast, hle⟩ := (List.pairwise_cons.1 hpairs).1 b (by simp)
      have ha := hseen a (by simp)
      have hb := hseen b (by simp)
      simp only [StoredRecord.isVisible, StoredRecord.spans, hlast, Bool.and_eq_true,
        decide_eq_true_eq] at ha hb
      exact absurd (hle.trans hb.1.1) (not_le.2 ha.1.2)

end VersionChain

/-! ### Stores built by plans -/

/-- The record writes of the engine, by the plans they make. -/
inductive StorePlan where
  | insert (schema : TableSchema) (input : RecordInput)
  | put (schema : TableSchema) (input : RecordInput)
  | putBatch (records : List (TableSchema × RecordInput))
  | patch (schema : TableSchema) (input : RecordInput)
  | delete (schema : TableSchema) (deletion : RecordDeletion)

namespace StorePlan

variable (sourceHash)

/-- The delta of a plan: `plan_mutation`, `plan_replacement`, `plan_replacement_into` for one record
after the other, or `plan_delete`. -/
def delta (store : RecordStore) (epoch : Epoch) : StorePlan → Result RecordStoreDelta
  | .insert schema input | .patch schema input => store.planMutation sourceHash schema input epoch
  | .put schema input => store.planReplacement sourceHash schema input epoch
  | .putBatch records => records.foldlM (fun delta (schema, input) =>
      store.planReplacementInto sourceHash delta schema input epoch) .empty
  | .delete schema deletion => store.planDelete schema deletion epoch

/-- The store after a plan; a plan that fails is not installed. -/
def after (store : RecordStore) (epoch : Epoch) (plan : StorePlan) : RecordStore :=
  match plan.delta sourceHash store epoch with
  | .ok delta => store.applyDelta delta
  | .error _ => store

end StorePlan

variable (sourceHash) in
/-- The store after plans at their epochs. -/
def RecordStore.runPlans (store : RecordStore) (plans : List (Epoch × StorePlan)) : RecordStore :=
  plans.foldl (fun store (epoch, plan) => plan.after sourceHash store epoch) store

/-- All keys have chains. -/
def RecordStore.Chained (epoch : Epoch) (store : RecordStore) : Prop :=
  ∀ key, VersionChain epoch (store.versionsAt key)

namespace RecordStore.Chained

variable {epoch epoch' : Epoch} {store store' : RecordStore}

theorem empty : Chained epoch RecordStore.empty := by
  intro key
  have hnone : RecordStore.empty.versionsAt key = [] := by simp [versionsAt, RecordStore.empty]
  rw [hnone]
  exact .nil

theorem mono (h : Chained epoch store) (hle : epoch ≤ epoch') : Chained epoch' store :=
  fun key => (h key).mono hle

/-- A planned write, over the delta so far. -/
theorem planInto (write : StoreWrite) {delta delta' : RecordStoreDelta}
    (h : Chained epoch (store.applyDelta delta)) (hle : epoch ≤ write.epoch)
    (hplan : write.planInto sourceHash store delta = .ok delta') :
    Chained write.epoch (store.applyDelta delta') := by
  have hwrite := applyDelta_planAt store delta write.target.key (write.onVersions sourceHash)
  rw [← StoreWrite.planInto_eq, hplan] at hwrite
  obtain ⟨versions, hversions, hstore⟩ := applyAt_eq_ok hwrite.symm
  intro key
  rw [hstore, versionsAt_set]
  split_ifs with hkey
  · exact (h write.target.key).edits hle (StoreWrite.edits hversions)
  · exact (h key).mono hle

theorem plan (h : Chained epoch store) (hle : epoch ≤ epoch') {plan : StorePlan}
    {delta : RecordStoreDelta} (hdelta : plan.delta sourceHash store epoch' = .ok delta) :
    Chained epoch' (store.applyDelta delta) := by
  have hempty : Chained epoch (store.applyDelta .empty) := by rwa [applyDelta_empty]
  have hwrite : ∀ write : StoreWrite, write.epoch = epoch' →
      write.planInto sourceHash store .empty = .ok delta →
      Chained epoch' (store.applyDelta delta) :=
    fun write hwrite hplan => hwrite ▸ hempty.planInto write (hwrite ▸ hle) hplan
  cases plan with
  | insert schema input | patch schema input =>
    exact hwrite (.mutate schema input epoch') rfl hdelta
  | put schema input => exact hwrite (.replace schema input epoch') rfl hdelta
  | delete schema deletion => exact hwrite (.delete schema deletion epoch') rfl hdelta
  | putBatch records =>
    -- Every record of the batch is planned at the same epoch over what the batch did so far.
    refine Except.foldlM_invariant hdelta
      (I := fun delta => Chained epoch' (store.applyDelta delta))
      (hempty.mono hle) fun delta record delta' _ hdelta hrecord => ?_
    exact hdelta.planInto (.replace record.1 record.2 epoch') le_rfl hrecord

theorem after (h : Chained epoch store) (hle : epoch ≤ epoch') (plan : StorePlan) :
    Chained epoch' (plan.after sourceHash store epoch') := by
  unfold StorePlan.after
  cases hdelta : plan.delta sourceHash store epoch' with
  | error e => exact h.mono hle
  | ok delta => exact h.plan hle hdelta

/-- Whole runs keep the chains. -/
theorem runPlans {plans : List (Epoch × StorePlan)} (h : Chained epoch store)
    (hepochs : (epoch :: plans.map Prod.fst).Pairwise (· ≤ ·)) :
    ∃ last, Chained last (store.runPlans sourceHash plans) := by
  induction plans generalizing store epoch with
  | nil => exact ⟨epoch, h⟩
  | cons plan plans ih =>
    obtain ⟨hfirst, hrest⟩ := List.pairwise_cons.1 hepochs
    exact ih (h.after (hfirst plan.1 (by simp)) plan.2) hrest

end RecordStore.Chained

/-- **Version chains.**  In every store that plans of the record writes build at epochs that do not
decrease, the versions of every key have non-decreasing begins, only the last one may be without an
end, each earlier one ends where the next one begins, and at most one is visible at an epoch. -/
theorem versions_form_chains {plans : List (Epoch × StorePlan)}
    (hepochs : (plans.map Prod.fst).Pairwise (· ≤ ·)) (key : String) :
    let versions := (RecordStore.empty.runPlans sourceHash plans).versionsAt key
    (versions.Pairwise fun a b => a.header.beginEpoch ≤ b.header.beginEpoch) ∧
      (∀ before record after, versions = before ++ record :: after →
        record.header.endEpoch = none → after = []) ∧
      (∀ before a b after, versions = before ++ a :: b :: after →
        a.header.endEpoch = some b.header.beginEpoch) ∧
      ∀ epoch, (versions.filter fun record => record.isVisible epoch).length ≤ 1 := by
  have hzero : (0 :: plans.map Prod.fst).Pairwise (· ≤ ·) :=
    List.pairwise_cons.2 ⟨fun epoch _ => Nat.zero_le epoch, hepochs⟩
  obtain ⟨last, hchained⟩ := RecordStore.Chained.empty.runPlans hzero
  have hchain := hchained key
  refine ⟨hchain.pairwise.imp And.left, ?_, ?_, hchain.length_visible_le⟩
  · intro before record after hsplit hend
    cases after with
    | nil => rfl
    | cons next after =>
      have hlinked := hchain.linked
      rw [hsplit] at hlinked
      have hends := (List.isChain_cons_cons.1 hlinked.right_of_append).1.2
      rw [hend] at hends
      cases hends
  · intro before a b after hsplit
    have hlinked := hchain.linked
    rw [hsplit] at hlinked
    exact (List.isChain_cons_cons.1 hlinked.right_of_append).1.2

/-- A record is put, put twice more in one batch, deleted and inserted again. -/
theorem versions_form_chains_docs :
    let input : RecordInput := ⟨"docs", "b", "a", ∅⟩
    let versions := (RecordStore.empty.runPlans (fun _ _ => 0)
      [(1, .put docsSchema input), (2, .putBatch [(docsSchema, input), (docsSchema, input)]),
        (3, .delete docsSchema ⟨"docs", "b", "a", ""⟩),
        (4, .insert docsSchema input)]).versionsAt (recordKey "docs" "a" "b")
    (versions.map fun record => (record.header.beginEpoch, record.header.endEpoch)) =
        [(1, some 2), (2, some 2), (2, some 3), (3, some 4), (4, none)] ∧
      ∀ epoch, (versions.filter fun record => record.isVisible epoch).length ≤ 1 :=
  ⟨by decide, (versions_form_chains (by decide) _).2.2.2⟩

end TraceDB
