import TraceDB.Store.Chains
import TraceDB.Store.Dimensions
import TraceDB.Store.Replay

/-!
# Features follow the writes

A record has a feature for every vector column.  A write sets its status from what the write
supplies, from the version before and from the merged fields; this file relates it to all the writes
of the record.

* `StoredRecord.EmbedsSince` : the embedding comes from a write after which no write supplied a
  source.
* `StoredRecord.Follows` : the features of a version agree with the writes up to the one that made
  it.
* `RecordStore.Tracked` : all versions do so; kept by every replacement and mutation
  (`Tracked.apply`).
* `RecordStore.applied` : the writes that a run of plans has made (`applyAll_applied`).
* `ready_features_fresh` : in every run without deletions, a ready feature is as recent as its
  sources.
-/

namespace TraceDB

variable {sourceHash : Fields → List String → ℕ}

/-! ### What a write supplies -/

/-- The fields that a write supplies. -/
def StoreWrite.supplied : StoreWrite → Fields
  | .replace _ input _ => input.fields
  | .mutate _ mutation _ => mutation.fields
  | .delete .. | .invalidate .. => ∅

/-- The write is a replacement or a mutation. -/
def StoreWrite.IsUpsert : StoreWrite → Prop
  | .replace .. | .mutate .. => True
  | .delete .. | .invalidate .. => False

/-- The record has a vector in the column, which one of the writes supplied, and no later one
supplied a source column. -/
def StoredRecord.EmbedsSince (record : StoredRecord) (vector : VectorColumnSchema)
    (writes : List StoreWrite) : Prop :=
  ∃ before write after value, writes = before ++ write :: after ∧
    record.fields[vector.name]? = some value ∧ value.vectorDimensionCount = some vector.dimensions ∧
    write.supplied[vector.name]? = some value ∧
    ∀ later ∈ after, ∀ source ∈ vector.sourceColumns, later.supplied[source]? = none

/-- Every vector column has a feature, ready only if the embedding is as recent as the sources. -/
def StoredRecord.FreshIn (record : StoredRecord) (schema : TableSchema) (writes : List StoreWrite) :
    Prop :=
  ∀ vector ∈ schema.vectorColumns, ∃ state, record.features[vector.name]? = some state ∧
    (state.status = .ready → record.EmbedsSince vector writes)

section

variable {schema : TableSchema} {record : StoredRecord} {vector : VectorColumnSchema}
  {writes : List StoreWrite} {write : StoreWrite}

/-- After a last write that supplies a source column and not the embedding, the embedding is
older. -/
theorem StoredRecord.EmbedsSince.last (h : record.EmbedsSince vector (writes ++ [write]))
    (hsource : ∃ source ∈ vector.sourceColumns, (write.supplied[source]?).isSome = true) :
    (write.supplied[vector.name]?).isSome = true := by
  obtain ⟨before, first, after, value, hsplit, -, -, hvalue, hafter⟩ := h
  rcases after.eq_nil_or_concat with rfl | ⟨others, last, rfl⟩
  · obtain ⟨-, rfl⟩ := List.append_inj' hsplit rfl |>.imp_right List.singleton_inj.1
    rw [hvalue]
    rfl
  · rw [List.concat_eq_append, ← List.cons_append, ← List.append_assoc] at hsplit
    obtain ⟨-, rfl⟩ := List.append_inj' hsplit rfl |>.imp_right List.singleton_inj.1
    obtain ⟨source, hmem, hsome⟩ := hsource
    rw [hafter write (by simp) source hmem] at hsome
    cases hsome

/-! ### One write -/

section

variable {mutation : RecordInput} {merged : Fields} {features : Features} {epoch : Epoch}

/-- What makes a feature ready: the write supplies the embedding; or no source, and the feature was
ready or is new to the record and its vector is there. -/
theorem featureFor_ready
    (h : (featureFor sourceHash mutation merged epoch features vector).status = .ready) :
    (∃ value, mutation.fields[vector.name]? = some value) ∨
      (∀ source ∈ vector.sourceColumns, mutation.fields[source]? = none) ∧
        ((∃ state, features[vector.name]? = some state ∧ state.status = .ready) ∨
          features[vector.name]? = none ∧ ∃ value, merged[vector.name]? = some value) := by
  unfold featureFor at h
  by_cases hown : mutation.fields.contains vector.name = true
  · rw [Std.ExtTreeMap.contains_eq_isSome_getElem?] at hown
    exact .inl (Option.isSome_iff_exists.1 hown)
  · rw [if_neg hown] at h
    by_cases hsources :
      (vector.sourceColumns.any fun source => mutation.fields.contains source) = true
    · -- A feature whose sources have changed is dirty.
      rw [if_pos hsources] at h
      cases hstate : features[vector.name]? with
      | some state =>
        rw [hstate] at h
        cases h
      | none =>
        rw [hstate] at h
        cases h
    · rw [if_neg hsources] at h
      refine .inr ⟨fun source hsource => ?_, ?_⟩
      · by_contra hne
        rw [← ne_eq, Option.ne_none_iff_isSome, ← Std.ExtTreeMap.contains_eq_isSome_getElem?] at hne
        exact hsources (List.any_eq_true.2 ⟨source, hsource, hne⟩)
      · cases hstate : features[vector.name]? with
        | some state =>
          rw [hstate] at h
          exact .inl ⟨state, rfl, h⟩
        | none =>
          rw [hstate] at h
          dsimp only at h
          split_ifs at h with hvector
          · obtain ⟨n, hcount⟩ := Option.isSome_iff_exists.1 hvector
            obtain ⟨value, hvalue, -⟩ := Option.bind_eq_some_iff.1 hcount
            exact .inr ⟨rfl, value, hvalue⟩
          · cases h

end

/-- The feature of a vector column. -/
theorem getElem?_buildFeatures_of_mem (hschema : schema.validate = .ok ())
    (hvector : vector ∈ schema.vectorColumns) (mutation : RecordInput) (merged : Fields)
    (previous : Option StoredRecord) (epoch : Epoch) :
    (buildFeatures sourceHash schema mutation merged previous epoch)[vector.name]? =
      some (featureFor sourceHash mutation merged epoch
        ((previous.map (·.features)).getD ∅) vector) := by
  have hnodup := (TableSchema.validate_spec hschema).vectorNames
  have hfind : schema.vectorColumns.find? (fun other => other.name = vector.name) = some vector :=
    (List.find?_key_eq_some hnodup).2 ⟨hvector, rfl⟩
  rw [getElem?_buildFeatures hnodup, hfind]

/-- The last write supplied the embedding. -/
theorem StoredRecord.embedsSince_last {value : Value}
    (hfield : record.fields[vector.name]? = some value)
    (hcount : value.vectorDimensionCount = some vector.dimensions)
    (hvalue : write.supplied[vector.name]? = some value) :
      record.EmbedsSince vector (writes ++ [write]) :=
  ⟨writes, write, [], value, rfl, hfield, hcount, hvalue, by simp⟩

/-- A write that supplies no source column leaves an embedding as recent as it was. -/
theorem StoredRecord.EmbedsSince.append {old : StoredRecord} (h : old.EmbedsSince vector writes)
    (hfield : record.fields[vector.name]? = old.fields[vector.name]?)
    (hsources : ∀ source ∈ vector.sourceColumns, write.supplied[source]? = none) :
    record.EmbedsSince vector (writes ++ [write]) := by
  obtain ⟨before, first, after, value, rfl, hold, hcount, hvalue, hafter⟩ := h
  refine ⟨before, first, after ++ [write], value, by simp, hfield.trans hold, hcount, hvalue, ?_⟩
  exact List.forall_mem_append.2 ⟨hafter, List.forall_mem_singleton.2 hsources⟩

theorem buildReplacementRecord_freshIn {input : RecordInput} {epoch : Epoch}
    (hschema : schema.validate = .ok ())
    (h : buildReplacementRecord sourceHash schema input epoch = .ok record)
    (writes : List StoreWrite) :
    record.FreshIn schema (writes ++ [.replace schema input epoch]) := by
  have hfits := buildReplacementRecord_fits hschema h
  simp only [buildReplacementRecord, Except.bind_eq_ok_iff, Except.guard_eq_ok_iff] at h
  obtain ⟨_, -, -, -, -, _, -, h⟩ := h
  obtain rfl := Except.ok.inj h
  intro vector hvector
  refine ⟨_, getElem?_buildFeatures_of_mem hschema hvector .., fun hready => ?_⟩
  obtain ⟨hid, htenant⟩ := (TableSchema.validate_spec hschema).vectorNotId vector hvector
  have hfield : ((input.fields.insert schema.primaryIdColumn (.string input.id)).insert
      schema.tenantIdColumn
      (.string input.tenantId))[vector.name]? = input.fields[vector.name]? := by
    rw [Std.ExtTreeMap.getElem?_insert, if_neg (by simpa using Ne.symm htenant),
      Std.ExtTreeMap.getElem?_insert, if_neg (by simpa using Ne.symm hid)]
  -- There is no version before, so the embedding is the one of the write.
  have hsupplied : ∃ value, input.fields[vector.name]? = some value := by
    rcases featureFor_ready hready with hown | ⟨-, ⟨_, hstate, -⟩ | ⟨-, value, hvalue⟩⟩
    · exact hown
    · simp at hstate
    · exact ⟨value, hfield ▸ hvalue⟩
  obtain ⟨value, hvalue⟩ := hsupplied
  exact StoredRecord.embedsSince_last (hfield.trans hvalue)
    (hfits vector hvector value (hfield.trans hvalue)) hvalue

theorem buildMutationRecord_freshIn {mutation : RecordInput} {previous : Option StoredRecord}
    {epoch : Epoch} (hschema : schema.validate = .ok ())
    (hprevious : ∀ old, previous = some old → old.FreshIn schema writes)
    (h : buildMutationRecord sourceHash schema mutation previous epoch = .ok record) :
    record.FreshIn schema (writes ++ [.mutate schema mutation epoch]) := by
  simp only [buildMutationRecord, Except.bind_eq_ok_iff, Except.guard_eq_ok_iff] at h
  obtain ⟨_, -, ⟨⟩, hdimensions, -, _, -, h⟩ := h
  obtain rfl := Except.ok.inj h
  intro vector hvector
  refine ⟨_, getElem?_buildFeatures_of_mem hschema hvector .., fun hready => ?_⟩
  obtain ⟨hid, htenant⟩ := (TableSchema.validate_spec hschema).vectorNotId vector hvector
  have hfield : (mergedFields schema mutation previous)[vector.name]? =
      carried mutation previous vector.name := getElem?_mergedFields_of_ne hid htenant
  cases hown : mutation.fields[vector.name]? with
  | some value =>
    have hmerged : (mergedFields schema mutation previous)[vector.name]? = some value := by
      rw [hfield, carried, hown, Option.some_or]
    exact StoredRecord.embedsSince_last hmerged (validateVectorDimensions_ok
      (TableSchema.dimensions_ne_zero hschema) hdimensions vector hvector value hown) hown
  | none =>
    rw [carried, hown, Option.none_or] at hfield
    rcases featureFor_ready hready with ⟨_, hvalue⟩ | ⟨hsources, hstate⟩
    · rw [hown] at hvalue
      cases hvalue
    · cases previous with
      | none =>
        rcases hstate with ⟨_, hstate, -⟩ | ⟨-, value, hvalue⟩
        · simp at hstate
        · rw [hfield] at hvalue
          cases hvalue
      | some old =>
        -- The version before has the feature, so it was ready there.
        obtain ⟨state, hstate', hold⟩ := hprevious old rfl vector hvector
        rcases hstate with ⟨_, hstate, hstatus⟩ | ⟨hstate, -⟩
        · obtain rfl := Option.some.inj (hstate'.symm.trans hstate)
          exact (hold hstatus).append hfield hsources
        · cases hstate'.symm.trans hstate

/-! ### The versions of a key -/

/-- The writes of a key divide into those up to the one that made the version, which its features
agree with, and those from its end on. -/
def StoredRecord.Follows (schema : TableSchema) (writes : List StoreWrite) (record : StoredRecord) :
    Prop :=
  ∃ made later, writes = made ++ later ∧ record.FreshIn schema made ∧
    (∀ write ∈ made, write.epoch ≤ record.header.beginEpoch) ∧
    ∀ write ∈ later, ∃ stop, record.header.endEpoch = some stop ∧ stop ≤ write.epoch

/-- The versions of a key, made by writes of its table up to an epoch. -/
structure Tracks (schema : TableSchema) (epoch : Epoch) (writes : List StoreWrite)
    (versions : Versions) :
    Prop where
  chain : VersionChain epoch versions
  writes_le : ∀ write ∈ writes, write.epoch ≤ epoch
  tombstone : ∀ record ∈ versions, record.header.tombstone = none
  ended : ∀ record ∈ versions, ∀ stop, record.header.endEpoch = some stop → stop ≤ epoch
  follows : ∀ record ∈ versions, record.Follows schema writes

namespace Tracks

variable {epoch : Epoch} {versions versions' : Versions}

theorem nil (schema : TableSchema) (epoch : Epoch) : Tracks schema epoch [] [] :=
  ⟨.nil, by simp, by simp, by simp, by simp⟩

theorem mono {epoch' : Epoch} (h : Tracks schema epoch writes versions) (hle : epoch ≤ epoch') :
    Tracks schema epoch' writes versions :=
  ⟨h.chain.mono hle, fun write hwrite => (h.writes_le write hwrite).trans hle, h.tombstone,
    fun record hrecord stop hstop => (h.ended record hrecord stop hstop).trans hle, h.follows⟩

/-- What is live is the last version, which all writes were made up to. -/
theorem freshIn_live (h : Tracks schema epoch writes versions) {old : StoredRecord}
    (hold : versions.findLast? StoredRecord.isLive = some old) : old.FreshIn schema writes := by
  obtain ⟨made, later, rfl, hfresh, -, hlater⟩ := h.follows old (List.mem_of_findLast? hold)
  have hopen : old.header.endEpoch = none := by
    have hlive := List.prop_of_findLast? hold
    rw [StoredRecord.isLive, Bool.and_eq_true, StoredRecord.isCurrent,
      Option.isNone_iff_eq_none] at hlive
    exact hlive.1
  have hnone : later = [] := List.eq_nil_iff_forall_not_mem.2 fun write hwrite => by
    obtain ⟨stop, hstop, -⟩ := hlater write hwrite
    cases hopen.symm.trans hstop
  rwa [hnone, List.append_nil]

/-- A write that ends the current version and appends one that its features agree with. -/
theorem append (h : Tracks schema epoch writes versions) (hle : epoch ≤ write.epoch)
    (hbegin : record.header.beginEpoch = write.epoch) (hend : record.header.endEpoch = none)
    (htombstone : record.header.tombstone = none)
    (hfresh : record.FreshIn schema (writes ++ [write])) :
    Tracks schema write.epoch (writes ++ [write])
    (closeCurrent write.epoch versions ++ [record]) := by
  have hchain := h.chain.edits hle (.appends (.inl rfl) hbegin hend)
  -- Of the versions there were, all have an end now, by the epoch of the write.
  have hclosed : ∀ old ∈ closeCurrent write.epoch versions, ∃ stop,
      old.header.endEpoch = some stop := by
    intro old hold
    have hpairs := hchain.pairwise
    rw [List.pairwise_append] at hpairs
    obtain ⟨-, stop, hstop, -⟩ := hpairs.2.2 old hold record (by simp)
    exact ⟨stop, hstop⟩
  have hold : ∀ old ∈ closeCurrent write.epoch versions, old.header.tombstone = none ∧
      (∀ stop, old.header.endEpoch = some stop → stop ≤ write.epoch) ∧
      old.Follows schema writes := by
    intro old hmem
    rcases List.mem_modifyLastWhere hmem with hin | ⟨old, hin, hcurrent, rfl⟩
    · exact ⟨h.tombstone old hin, fun stop hstop => (h.ended old hin stop hstop).trans hle,
        h.follows old hin⟩
    · refine ⟨h.tombstone old hin, fun stop hstop => (Option.some.inj hstop).ge, ?_⟩
      obtain ⟨made, later, hsplit, hfresh, hmade, hlater⟩ := h.follows old hin
      rw [StoredRecord.isCurrent, Option.isNone_iff_eq_none] at hcurrent
      refine ⟨made, later, hsplit, hfresh, hmade, fun other hother => ?_⟩
      obtain ⟨stop, hstop, -⟩ := hlater other hother
      cases hcurrent.symm.trans hstop
  refine ⟨hchain, ?_, ?_, ?_, ?_⟩
  · exact List.forall_mem_append.2 ⟨fun other hother => (h.writes_le other hother).trans hle,
      List.forall_mem_singleton.2 le_rfl⟩
  · exact List.forall_mem_append.2 ⟨fun old hmem => (hold old hmem).1,
      List.forall_mem_singleton.2 htombstone⟩
  · refine List.forall_mem_append.2 ⟨fun old hmem => (hold old hmem).2.1,
      List.forall_mem_singleton.2 ?_⟩
    intro stop hstop
    cases hend.symm.trans hstop
  · refine List.forall_mem_append.2 ⟨fun old hmem => ?_, List.forall_mem_singleton.2 ?_⟩
    · obtain ⟨-, hstops, made, later, rfl, hfresh, hmade, hlater⟩ := hold old hmem
      obtain ⟨stop, hstop⟩ := hclosed old hmem
      refine ⟨made, later ++ [write], by simp, hfresh, hmade, ?_⟩
      exact List.forall_mem_append.2
        ⟨hlater, List.forall_mem_singleton.2 ⟨stop, hstop, hstops stop hstop⟩⟩
    · refine ⟨writes ++ [write], [], (List.append_nil _).symm, hfresh, ?_, by simp⟩
      exact List.forall_mem_append.2
        ⟨fun other hother => ((h.writes_le other hother).trans hle).trans hbegin.ge,
          List.forall_mem_singleton.2 hbegin.ge⟩

/-- **A replacement or a mutation keeps the versions of its key in step with the writes.** -/
theorem onVersions {schemas : List TableSchema} (h : Tracks schema epoch writes versions)
    (hschema : schema.validate = .ok ()) (hle : epoch ≤ write.epoch) (hupsert : write.IsUpsert)
    (hwrite : write.InSchemas schemas) (htable : findTable schemas write.target.table = some schema)
    (hversions : write.onVersions sourceHash versions = .ok versions') :
    Tracks schema write.epoch (writes ++ [write]) versions' := by
  cases write with
  | replace own input e =>
    obtain rfl : own = schema := Option.some.inj ((Eq.symm hwrite).trans htable)
    simp only [StoreWrite.onVersions, replaceVersions, Except.bind_eq_ok_iff] at hversions
    obtain ⟨record, hrecord, hversions⟩ := hversions
    obtain rfl := Except.ok.inj hversions
    have hheader := buildReplacementRecord_header hrecord
    exact h.append hle (by rw [hheader]; rfl) (by rw [hheader]; rfl) (by rw [hheader]; rfl)
      (buildReplacementRecord_freshIn hschema hrecord writes)
  | mutate own mutation e =>
    obtain rfl : own = schema := Option.some.inj ((Eq.symm hwrite).trans htable)
    simp only [StoreWrite.onVersions, mutateVersions, Except.bind_eq_ok_iff] at hversions
    obtain ⟨record, hrecord, hversions⟩ := hversions
    obtain rfl := Except.ok.inj hversions
    have hheader := buildMutationRecord_header hrecord
    exact h.append hle (by rw [hheader]; rfl) (by rw [hheader]; rfl) (by rw [hheader]; rfl)
      (buildMutationRecord_freshIn hschema (fun old hold => h.freshIn_live hold) hrecord)
  | delete own deletion e => exact hupsert.elim
  | invalidate invalidation e => exact hupsert.elim

/-- The features of a version that is visible at an epoch agree with the writes by that epoch. -/
theorem freshIn_visible (h : Tracks schema epoch writes versions) {at' : Epoch}
    (hmem : record ∈ versions) (hvisible : record.isVisible at' = true) :
    record.FreshIn schema (writes.filter fun write => write.epoch ≤ at') := by
  obtain ⟨made, later, rfl, hfresh, hmade, hlater⟩ := h.follows record hmem
  simp only [StoredRecord.isVisible, StoredRecord.spans, Bool.and_eq_true,
    decide_eq_true_eq] at hvisible
  have hall : made.filter (fun write => decide (write.epoch ≤ at')) = made :=
    List.filter_eq_self.2 fun write hwrite => by simpa using (hmade write hwrite).trans hvisible.1.1
  have hnone : later.filter (fun write => decide (write.epoch ≤ at')) = [] := by
    refine List.filter_eq_nil_iff.2 fun write hwrite => ?_
    obtain ⟨stop, hstop, hle⟩ := hlater write hwrite
    have hlt := hvisible.1.2
    rw [hstop] at hlt
    simpa using (of_decide_eq_true hlt).trans_le hle
  rwa [List.filter_append, hall, hnone, List.append_nil]

end Tracks

/-! ### Stores and runs -/

namespace RecordStore

variable {schemas : List TableSchema} {store store' : RecordStore} {epoch epoch' : Epoch}

/-- The versions of every key of a table with a schema are made by the writes with the key. -/
def Tracked (schemas : List TableSchema) (epoch : Epoch) (writes : List StoreWrite)
    (store : RecordStore) :
    Prop :=
  ∀ (target : RecordTriple) (schema : TableSchema), findTable schemas target.table = some schema →
    Tracks schema epoch (writes.filter fun write => write.target.key = target.key)
      (store.versionsAt target.key)

theorem Tracked.empty (schemas : List TableSchema) (epoch : Epoch) :
    Tracked schemas epoch [] .empty := by
  intro target schema hschema
  have hnone : RecordStore.empty.versionsAt target.key = [] :=
    by simp [versionsAt, RecordStore.empty]
  rw [hnone]
  exact .nil schema epoch

/-- **A replacement or a mutation keeps the store in step with the writes.** -/
theorem Tracked.apply (h : store.Tracked schemas epoch writes)
    (hschemas : ∀ schema ∈ schemas, schema.validate = .ok ()) (hle : epoch ≤ write.epoch)
    (hupsert : write.IsUpsert) (hwrite : write.InSchemas schemas)
    (happly : write.apply sourceHash store = .ok store') :
    store'.Tracked schemas write.epoch (writes ++ [write]) := by
  rw [StoreWrite.apply_eq] at happly
  obtain ⟨versions, hversions, rfl⟩ := applyAt_eq_ok happly
  intro target schema hschema
  rw [versionsAt_set, List.filter_append]
  split_ifs with hkey
  · -- Keys are equal only within a table.
    have htable : write.target.table = target.table := ((RecordTriple.key_eq_iff
      (hasSchema_of_findTable hschemas (isSome_of_inSchemas hwrite))
      (hasSchema_of_findTable hschemas (Option.isSome_iff_exists.2 ⟨schema, hschema⟩))).1 hkey).1
    rw [List.filter_singleton, decide_eq_true hkey, cond_true]
    have htracks := h target schema hschema
    rw [← hkey] at htracks
    rw [← hkey]
    exact htracks.onVersions (hschemas schema (List.mem_of_find?_eq_some hschema)) hle
      hupsert hwrite
      (htable ▸ hschema) hversions
  · rw [List.filter_singleton, decide_eq_false hkey, cond_false, List.append_nil]
    exact (h target schema hschema).mono hle

/-- Writes one after the other. -/
theorem Tracked.applyAll {later : List StoreWrite} (h : store.Tracked schemas epoch writes)
    (hschemas : ∀ schema ∈ schemas, schema.validate = .ok ())
    (hepochs : (epoch :: later.map StoreWrite.epoch).Pairwise (· ≤ ·))
    (hlater : ∀ write ∈ later, write.IsUpsert ∧ write.InSchemas schemas)
    (happly : store.applyAll sourceHash later = .ok store') :
    ∃ last, store'.Tracked schemas last (writes ++ later) := by
  induction later generalizing store epoch writes with
  | nil =>
    obtain rfl := Except.ok.inj happly
    exact ⟨epoch, by rwa [List.append_nil]⟩
  | cons write later ih =>
    rw [RecordStore.applyAll, List.foldlM_cons, Except.bind_eq_ok_iff] at happly
    obtain ⟨middle, hfirst, hrest⟩ := happly
    obtain ⟨hle, hepochs⟩ := List.pairwise_cons.1 hepochs
    obtain ⟨⟨hupsert, hwrite⟩, hlater⟩ := List.forall_mem_cons.1 hlater
    have hmiddle := h.apply hschemas (hle write.epoch (by simp)) hupsert hwrite hfirst
    obtain ⟨last, hlast⟩ := ih hmiddle hepochs hlater hrest
    exact ⟨last, by rwa [List.append_assoc] at hlast⟩

end RecordStore

end

namespace StorePlan

variable {store : RecordStore} {epoch : Epoch} {plan : StorePlan} {delta : RecordStoreDelta}

/-- The writes of a plan, at its epoch. -/
def writes (epoch : Epoch) : StorePlan → List StoreWrite
  | .insert schema input | .patch schema input => [.mutate schema input epoch]
  | .put schema input => [.replace schema input epoch]
  | .putBatch records => records.map fun record => .replace record.1 record.2 epoch
  | .delete schema deletion => [.delete schema deletion epoch]

/-- The plan is an insertion, a put, a batch or a patch, by the schemas of its tables. -/
def Upserts (schemas : List TableSchema) : StorePlan → Prop
  | .insert schema input | .put schema input | .patch schema input =>
    findTable schemas input.table = some schema
  | .putBatch records => ∀ record ∈ records, findTable schemas record.2.table = some record.1
  | .delete .. => False

theorem epoch_of_mem_writes {write : StoreWrite} (h : write ∈ plan.writes epoch) :
    write.epoch = epoch := by
  cases plan with
  | putBatch records =>
    obtain ⟨record, -, rfl⟩ := List.mem_map.1 h
    rfl
  | _ =>
    obtain rfl := List.mem_singleton.1 h
    rfl

theorem Upserts.of_mem_writes {schemas : List TableSchema} (h : plan.Upserts schemas)
    {write : StoreWrite} (hwrite : write ∈ plan.writes epoch) :
      write.IsUpsert ∧ write.InSchemas schemas := by
  cases plan with
  | putBatch records =>
    obtain ⟨record, hrecord, rfl⟩ := List.mem_map.1 hwrite
    exact ⟨trivial, h record hrecord⟩
  | delete schema deletion => exact h.elim
  | _ =>
    obtain rfl := List.mem_singleton.1 hwrite
    exact ⟨trivial, h⟩

/-- Installing a plan is applying its writes. -/
theorem applyAll_writes (h : plan.delta sourceHash store epoch = .ok delta) :
    store.applyAll sourceHash (plan.writes epoch) = .ok (store.applyDelta delta) := by
  have hstep : ∀ {write : StoreWrite} {before after : RecordStoreDelta},
      write.planInto sourceHash store before = .ok after →
        write.apply sourceHash (store.applyDelta before) = .ok (store.applyDelta after) := by
    intro write before after hplan
    rw [StoreWrite.apply_eq, ← RecordStore.applyDelta_planAt, ← StoreWrite.planInto_eq, hplan]
    rfl
  have hsingle : ∀ write : StoreWrite, write.planInto sourceHash store .empty = .ok delta →
      store.applyAll sourceHash [write] = .ok (store.applyDelta delta) := by
    intro write hplan
    have happly := hstep hplan
    rw [RecordStore.applyDelta_empty] at happly
    rw [RecordStore.applyAll, List.foldlM_cons, happly]
    rfl
  cases plan with
  | insert schema input | patch schema input => exact hsingle (.mutate schema input epoch) h
  | put schema input => exact hsingle (.replace schema input epoch) h
  | delete schema deletion => exact hsingle (.delete schema deletion epoch) h
  | putBatch records =>
    have hbatch : ∀ {before : RecordStoreDelta}, records.foldlM (fun delta record =>
        store.planReplacementInto sourceHash delta record.1 record.2 epoch) before = .ok delta →
          (store.applyDelta before).applyAll sourceHash (writes epoch (.putBatch records)) =
            .ok (store.applyDelta delta) := by
      clear h
      induction records with
      | nil =>
        intro before h
        obtain rfl := Except.ok.inj h
        rfl
      | cons record records ih =>
        intro before h
        rw [List.foldlM_cons, Except.bind_eq_ok_iff] at h
        obtain ⟨middle, hfirst, hrest⟩ := h
        have happly : StoreWrite.apply sourceHash (store.applyDelta before)
            (.replace record.1 record.2 epoch) = .ok (store.applyDelta middle) := hstep hfirst
        rw [writes, List.map_cons, RecordStore.applyAll, List.foldlM_cons, happly]
        exact ih hrest
    have hrun := hbatch h
    rwa [RecordStore.applyDelta_empty] at hrun

end StorePlan

variable (sourceHash) in
/-- The writes that plans at their epochs have made; a plan that fails makes none. -/
def RecordStore.applied (store : RecordStore) : List (Epoch × StorePlan) → List StoreWrite
  | [] => []
  | (epoch, plan) :: plans =>
    match plan.delta sourceHash store epoch with
    | .ok delta => plan.writes epoch ++ (store.applyDelta delta).applied plans
    | .error _ => store.applied plans

namespace RecordStore

variable {store : RecordStore} {plans : List (Epoch × StorePlan)}

/-- A run of plans applies the writes it has made. -/
theorem applyAll_applied :
    store.applyAll sourceHash (store.applied sourceHash plans) =
      .ok (store.runPlans sourceHash plans) := by
  induction plans generalizing store with
  | nil => rfl
  | cons plan plans ih =>
    rw [applied, runPlans, List.foldl_cons]
    dsimp only
    rw [StorePlan.after]
    cases hdelta : plan.2.delta sourceHash store plan.1 with
    | error e => exact ih
    | ok delta =>
      dsimp only
      rw [applyAll, List.foldlM_append]
      change (store.applyAll sourceHash (plan.2.writes plan.1) >>= _) = _
      rw [StorePlan.applyAll_writes hdelta]
      exact ih

theorem applied_sublist :
    (store.applied sourceHash plans).Sublist (plans.flatMap fun plan => plan.2.writes plan.1) := by
  induction plans generalizing store with
  | nil => exact .slnil
  | cons plan plans ih =>
    rw [applied, List.flatMap_cons]
    cases plan.2.delta sourceHash store plan.1 with
    | error e => exact ih.trans (List.sublist_append_right _ _)
    | ok delta => exact (List.Sublist.refl _).append ih

/-- The epochs of the writes do not decrease when those of the plans do not. -/
theorem pairwise_applied (hepochs : (plans.map Prod.fst).Pairwise (· ≤ ·)) :
    ((store.applied sourceHash plans).map StoreWrite.epoch).Pairwise (· ≤ ·) := by
  refine List.Pairwise.sublist (applied_sublist.map _) ?_
  rw [List.pairwise_map, List.pairwise_flatMap]
  refine ⟨fun plan _ => ?_, ?_⟩
  · refine List.pairwise_of_forall_mem_list fun a ha b hb => ?_
    rw [StorePlan.epoch_of_mem_writes ha, StorePlan.epoch_of_mem_writes hb]
  · refine (List.pairwise_map.1 hepochs).imp fun hle a ha b hb => ?_
    rw [StorePlan.epoch_of_mem_writes ha, StorePlan.epoch_of_mem_writes hb]
    exact hle

end RecordStore

/-- **Ready features are fresh.**  In every run of insertions, puts, batches and patches by
validated schemas, at epochs that do not decrease, every record visible at an epoch has a feature
for every vector column of its table.  It is ready only if the record has an embedding there that
one of the writes of the record by that epoch supplied, and no later one of them supplied a source
column; it is not ready when the last of them supplied a source column and no embedding. -/
theorem ready_features_fresh {schemas : List TableSchema}
    (hschemas : ∀ schema ∈ schemas, schema.validate = .ok ()) {plans : List (Epoch × StorePlan)}
    (hplans : ∀ plan ∈ plans, plan.2.Upserts schemas)
    (hepochs : (plans.map Prod.fst).Pairwise (· ≤ ·)) {table tenantId id : String}
    {schema : TableSchema} (hschema : findTable schemas table = some schema) {epoch : Epoch}
    {record : StoredRecord}
    (hrecord : (RecordStore.empty.runPlans sourceHash plans).getRecord table tenantId id epoch =
      some record) :
    let writes := ((RecordStore.empty.applied sourceHash plans).filter fun write =>
      write.target.key = recordKey table tenantId id).filter fun write => write.epoch ≤ epoch
    ∀ vector ∈ schema.vectorColumns, ∃ state, record.features[vector.name]? = some state ∧
      (state.status = .ready → record.EmbedsSince vector writes) ∧
      ∀ earlier last, writes = earlier ++ [last] → last.supplied[vector.name]? = none →
        (∃ source ∈ vector.sourceColumns, (last.supplied[source]?).isSome = true) →
        state.status ≠ .ready := by
  intro writes vector hvector
  have hzero : (0 :: (RecordStore.empty.applied sourceHash plans).map StoreWrite.epoch).Pairwise
      (· ≤ ·) :=
    List.pairwise_cons.2 ⟨fun epoch _ => Nat.zero_le epoch, RecordStore.pairwise_applied hepochs⟩
  have hupserts : ∀ write ∈ RecordStore.empty.applied sourceHash plans,
      write.IsUpsert ∧ write.InSchemas schemas := by
    intro write hwrite
    obtain ⟨plan, hplan, hwrite⟩ := List.mem_flatMap.1 (RecordStore.applied_sublist.subset hwrite)
    exact (hplans plan hplan).of_mem_writes hwrite
  obtain ⟨last, htracked⟩ := (RecordStore.Tracked.empty schemas 0).applyAll hschemas hzero hupserts
    RecordStore.applyAll_applied
  have htracks := htracked ⟨table, tenantId, id⟩ schema hschema
  have hfind : ((RecordStore.empty.runPlans sourceHash plans).versionsAt
      (recordKey table tenantId id)).findLast? (fun record =>
        record.isVisible epoch) = some record := by
    rw [← RecordStore.bind_versions]
    exact hrecord
  have hvisible : record.isVisible epoch = true :=
    List.prop_of_findLast? (p := fun record : StoredRecord => record.isVisible epoch) hfind
  obtain ⟨state, hstate, hready⟩ :=
    htracks.freshIn_visible (List.mem_of_findLast? hfind) hvisible vector hvector
  refine ⟨state, hstate, hready, fun earlier last hsplit hnone hsource hstatus => ?_⟩
  have hembeds : record.EmbedsSince vector (earlier ++ [last]) := hsplit ▸ hready hstatus
  have hsome := hembeds.last hsource
  rw [hnone] at hsome
  cases hsome

/-- A table of notes with an embedding of their bodies. -/
def embeddedSchema :
    TableSchema := ⟨"notes", "id", "tenant", [], ["body"], [⟨"embedding", 1, ["body"]⟩]⟩

/-- A note is put with its embedding, its body is patched, and then its embedding. -/
theorem ready_features_fresh_notes :
    let body : String × Value := ("body", .string "")
    let embedding : String × Value := ("embedding", .array [.number (.posInt 0)])
    let note (fields : List (String × Value)) : RecordInput := ⟨"notes", "b", "a", .ofList fields⟩
    let plans := [(1, StorePlan.put embeddedSchema (note [body, embedding])),
      (2, .patch embeddedSchema (note [body])), (3, .patch embeddedSchema (note [embedding]))]
    let store := RecordStore.empty.runPlans (fun _ _ => 0) plans
    let status (epoch : Epoch) := ((store.getRecord "notes" "a" "b" epoch).bind fun record =>
      record.features["embedding"]?).map (·.status)
    let writes := ((RecordStore.empty.applied (fun _ _ => 0) plans).filter fun write =>
      write.target.key = recordKey "notes" "a" "b").filter fun write => write.epoch ≤ 3
    (status 1, status 2, status 3) = (some .ready, some .dirty, some .ready) ∧
      ∃ record, store.getRecord "notes" "a" "b" 3 = some record ∧
        record.EmbedsSince ⟨"embedding", 1, ["body"]⟩ writes := by
  intro body embedding note plans store status writes
  have hstatus : (status 1, status 2, status 3) = (some .ready, some .dirty, some .ready) :=
    by decide +kernel
  have hplans : ∀ plan ∈ plans, plan.2.Upserts [embeddedSchema] :=
    List.forall_mem_cons.2 ⟨rfl, List.forall_mem_cons.2 ⟨rfl, List.forall_mem_singleton.2 rfl⟩⟩
  have hthree : status 3 = some .ready := congrArg (fun s => s.2.2) hstatus
  obtain ⟨found, hfound, hready⟩ := Option.map_eq_some_iff.1 hthree
  obtain ⟨record, hrecord, hfeature⟩ := Option.bind_eq_some_iff.1 hfound
  obtain ⟨state, hstate, hfresh, -⟩ :=
    ready_features_fresh (by decide : ∀ schema ∈ [embeddedSchema], _) hplans
    (by decide) rfl hrecord ⟨"embedding", 1, ["body"]⟩ (by decide)
  obtain rfl := Option.some.inj (hfeature.symm.trans hstate)
  exact ⟨hstatus, record, hrecord, hfresh hready⟩

end TraceDB
