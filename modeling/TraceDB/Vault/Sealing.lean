import TraceDB.Engine.Fields
import TraceDB.Query.Samples
import TraceDB.Vault.Basic

/-!
# Records that can be sealed

A segment object is read back before its checksum is taken, and again when it is verified.  The
checks of a write look only at the shapes and the dimensions of its vectors, so a record that is
accepted need not be read back: a component beyond the range of an `f32` narrows to an infinity,
which is written as `null`.

* `SealableFields` : fields that are read back, and whose vectors are.
* `SealedObject.fromRecords_sealed`, `fromRecords_error` : the object of a list of records.
* `Vault.publishObject_ok`, `publishObject_error` : the publication of the records of a snapshot.
* `records_not_sealed`, `records_sealed` : publications after a run.
-/

namespace TraceDB

variable {S : Type} {A : ArtifactFormat S} {db : Db}

/-! ### Records -/

/-- The fields of a record can be sealed: `serde_json` reads their values back, and the vectors of
its columns as `f32`, and it reads back what it has read. -/
structure SealableFields (A : ArtifactFormat S) (schema : TableSchema) (fields : Fields) :
    Prop where
  value : ∀ (name : String) (value : Value), fields[name]? = some value →
    Settles (readBackValue A segmentOuter) value
  vector : ∀ vector ∈ schema.vectorColumns, ∀ items xs, fields[vector.name]? = some (.array items) →
    itemsAsF32 A.toQueryFormat items = some xs → ∀ x ∈ xs, Settles (rereadFloat A) x

theorem getElem?_segmentVectors {columns : List VectorColumnSchema} {fields : Fields}
    {before : Std.ExtTreeMap String (List Value) compare} {name : String} {items : List Value}
    (h : (columns.foldl (fun (vectors : Std.ExtTreeMap String (List Value) compare) vector =>
      match fields[vector.name]? with
      | some value =>
        if value.vectorDimensionCount.isSome then vectors.insert vector.name
          (value.asArray.getD []) else vectors
      | none => vectors) before)[name]? = some items) :
    before[name]? = some items ∨
      ∃ vector ∈ columns, vector.name = name ∧ fields[vector.name]? = some (.array items) := by
  induction columns generalizing before with
  | nil => exact .inl h
  | cons vector columns ih =>
    rw [List.foldl_cons] at h
    rcases ih h with hbefore | ⟨other, hother, hname, hitems⟩
    · cases hfield : fields[vector.name]? with
      | none =>
        rw [hfield] at hbefore
        exact .inl hbefore
      | some value =>
        rw [hfield] at hbefore
        dsimp only at hbefore
        split_ifs at hbefore with hcount
        · rw [Std.ExtTreeMap.getElem?_insert] at hbefore
          split_ifs at hbefore with hname
          · refine .inr ⟨vector, List.mem_cons_self, by simpa using hname, ?_⟩
            cases value with
            | array found =>
              obtain rfl := Option.some.inj hbefore
              exact hfield
            | _ => cases hcount
          · exact .inl hbefore
        · exact .inl hbefore
    · exact .inr ⟨other, List.mem_cons_of_mem _ hother, hname, hitems⟩

/-- The record of a segment is read back, and so is what is read. -/
theorem settles_segmentRecord {schema : TableSchema} {record : StoredRecord}
    (h : SealableFields A schema record.fields) :
    Settles (IndexRecord.reread A)
    (indexRecordFromSegment A.toQueryFormat (segmentRecordOf schema record)) := by
  obtain ⟨fields, hfields, hfieldsAgain⟩ :
      Settles (SortedMap.traverse (readBackValue A segmentOuter)) record.fields :=
    SortedMap.settles_traverse h.value
  have hvector : ∀ (name : String) xs,
      ((segmentRecordOf schema record).vectors.map fun _ items =>
        (itemsAsF32 A.toQueryFormat items).getD [])[name]? =
        some xs → Settles (fun vector => vector.mapM (rereadFloat A)) xs := by
    intro name xs hxs
    rw [Std.ExtTreeMap.getElem?_map] at hxs
    obtain ⟨items, hitems, rfl⟩ := Option.map_eq_some_iff.1 hxs
    rcases getElem?_segmentVectors hitems with hnone | ⟨vector, hvector, rfl, hfield⟩
    · rw [Std.ExtTreeMap.getElem?_empty] at hnone
      cases hnone
    · refine settles_mapM fun x hx => ?_
      cases hfloats : itemsAsF32 A.toQueryFormat items with
      | none =>
        rw [hfloats] at hx
        cases hx
      | some floats =>
        rw [hfloats] at hx
        exact h.vector vector hvector items floats hfield hfloats x hx
  obtain ⟨vectors, hvectors, hvectorsAgain⟩ := SortedMap.settles_traverse hvector
  refine ⟨{ indexRecordFromSegment A.toQueryFormat (segmentRecordOf schema record) with
    fields := fields, vectors := vectors }, ?_, ?_⟩
  · rw [IndexRecord.reread]
    have hsame : (indexRecordFromSegment A.toQueryFormat (segmentRecordOf schema record)).fields =
        record.fields := rfl
    rw [hsame, hfields, Option.bind_eq_bind, Option.bind_some]
    have hread : SortedMap.traverse (fun vector => vector.mapM (rereadFloat A))
      (indexRecordFromSegment A.toQueryFormat (segmentRecordOf schema record)).vectors =
        some vectors := hvectors
    rw [hread]
    rfl
  · show (SortedMap.traverse _ fields >>= _) = _
    rw [hfieldsAgain]
    show (SortedMap.traverse _ vectors >>= _) = _
    rw [hvectorsAgain]
    rfl

/-! ### Objects -/

theorem SealedObject.reread_eq {object : SealedObject S} {records : List (IndexRecord S)}
    (h : object.records.mapM (IndexRecord.reread A) = some records) :
    object.reread A = some { object with records := records } := by
  rw [SealedObject.reread, h]
  rfl

theorem SealedObject.computeChecksum_eq {object : SealedObject S} {records : List (IndexRecord S)}
    (h : object.records.mapM (IndexRecord.reread A) = some records) :
    object.computeChecksum A = .ok (A.checksumBytes (A.objectBytes
      { object with records := records, objectChecksum := Digest.zero })) := by
  let plain : SealedObject S := { object with objectChecksum := Digest.zero }
  have hreread : plain.reread A = some { plain with records := records } := SealedObject.reread_eq h
  rw [SealedObject.computeChecksum, hreread]

theorem SealedObject.verify_eq_ok {object : SealedObject S}
    (hid : Text.isBlank object.segmentId = false) (hpayload : object.payloadChecksum ≠ Digest.zero)
    (h : object.computeChecksum A = .ok object.objectChecksum) :
    object.verify A = .ok () := by
  rw [SealedObject.verify, if_neg (by rw [hid]; exact Bool.false_ne_true), if_neg hpayload, h,
    Except.ok_bind, if_neg (not_not.2 rfl)]

/-- The object of records that are read back is built, verified, and read back as one that is
verified. -/
theorem SealedObject.fromRecords_sealed {segmentId : String} (hid : Text.isBlank segmentId = false)
    (generation : ℕ) {records : List (IndexRecord S)}
    (h : ∀ record ∈ records, Settles (IndexRecord.reread A) record) :
    ∃ object again, SealedObject.fromRecords A segmentId generation records = .ok object ∧
      object.verify A = .ok () ∧ object.reread A = some again ∧ again.verify A = .ok () := by
  obtain ⟨again, hagain, hfixed⟩ := settles_mapM h
  let plain : SealedObject S :=
    { segmentId := segmentId
      generation := generation
      state := .published
      tableSet := sortedUnique (records.map (·.table))
      tenantSet := sortedUnique (records.map (·.tenantId))
      records := records
      payloadChecksum := A.checksumBytes (A.recordsBytes records)
      objectChecksum := Digest.zero }
  -- The checksum is that of the records as they are read back, whichever records it is taken of.
  let checksum := A.checksumBytes (A.objectBytes { plain with records := again })
  have hpayload : plain.payloadChecksum ≠ Digest.zero := A.checksumBytes_ne_zero _
  have hplain : plain.computeChecksum A = .ok checksum := SealedObject.computeChecksum_eq hagain
  refine ⟨{ plain with objectChecksum := checksum },
    { plain with records := again, objectChecksum := checksum }, ?_, ?_,
    SealedObject.reread_eq hagain, ?_⟩
  · show (plain.computeChecksum A >>= _) = _
    rw [hplain]
    rfl
  · exact SealedObject.verify_eq_ok hid hpayload (SealedObject.computeChecksum_eq hagain)
  · exact SealedObject.verify_eq_ok hid hpayload (SealedObject.computeChecksum_eq hfixed)

/-- The object of records that are not all read back is not built. -/
theorem SealedObject.fromRecords_error {segmentId : String} {generation : ℕ}
    {records : List (IndexRecord S)} (h : records.mapM (IndexRecord.reread A) = none) :
    SealedObject.fromRecords A segmentId generation records = .error .json := by
  have hchecksum : ∀ object : SealedObject S, object.records = records →
      object.computeChecksum A = .error .json := by
    rintro object rfl
    rw [SealedObject.computeChecksum, SealedObject.reread]
    dsimp only
    rw [h]
    rfl
  rw [SealedObject.fromRecords]
  dsimp only
  rw [hchecksum _ rfl]
  rfl

/-! ### Publication -/

namespace Vault

variable {vault : Vault S} {entries : List WalEntry}

/-- A publication under a new id of records that are read back. -/
theorem publishObject_ok (hsync : Synced A.toEngineFormat vault.db entries) {segmentId : String}
    (hid : Text.isBlank segmentId = false) (hfresh : vault.db.disk.segments[segmentId]? = none)
    (h : ∀ record ∈ vault.db.segmentRecordsForSnapshot,
      Settles (IndexRecord.reread A) (indexRecordFromSegment A.toQueryFormat record))
    (generation : ℕ) (durable : Manifest) (keeps : String → Bool) :
    ∃ after, vault.publishObject A segmentId generation durable keeps = (.ok (), after) := by
  let file := SegmentObject.fromRecords segmentId generation vault.db.segmentRecordsForSnapshot
  have hrecords : ∀ record ∈ file.records.map (indexRecordFromSegment A.toQueryFormat),
      Settles (IndexRecord.reread A) record := by
    intro record hrecord
    obtain ⟨found, hfound, rfl⟩ := List.mem_map.1 hrecord
    exact h found hfound
  obtain ⟨object, again, hobject, hverify, hreread, hagain⟩ :=
    SealedObject.fromRecords_sealed hid generation hrecords
  have hsealed : file.sealed A = .ok object := hobject
  have hwritten : (vault.writeObject file).db.disk.segments[segmentId]? = some file :=
    Std.ExtTreeMap.getElem?_insert_self
  have hread : readSegmentObject A (vault.writeObject file).db.disk segmentId = .ok again := by
    rw [readSegmentObject, hwritten]
    dsimp only
    rw [hsealed, Except.ok_bind, hreread]
    dsimp only
    rw [hagain]
    rfl
  have hpublish : vault.publishSegmentRecords A segmentId generation
      vault.db.segmentRecordsForSnapshot =
      (.ok again, vault.writeObject file) := by
    rw [publishSegmentRecords, hfresh]
    dsimp only
    rw [hsealed, Except.ok_bind, hverify, hread]
  have hdisk : ((vault.writeObject file).writeArtifacts
      (again.artifacts A durable.manifestGeneration)).db.disk.manifest =
        some (A.manifestCodec.encode vault.db.manifest) := hsync.manifestFile
  rw [publishObject, hpublish]
  dsimp only
  rw [writeManifest_of_manifest hsync.isSealed hdisk]
  exact ⟨_, rfl⟩

/-- A record that is not read back stops the publication of all records. -/
theorem publishObject_error {segmentId : String}
    (hfresh : vault.db.disk.segments[segmentId]? = none) {record : SegmentRecord}
    (hrecord : record ∈ vault.db.segmentRecordsForSnapshot)
    (hnone : (indexRecordFromSegment A.toQueryFormat record).reread A = none) (generation : ℕ)
    (durable : Manifest) (keeps : String → Bool) :
    vault.publishObject A segmentId generation durable keeps = (.error .json, vault) := by
  have hrecords : (vault.db.segmentRecordsForSnapshot.map
      (indexRecordFromSegment A.toQueryFormat)).mapM
      (IndexRecord.reread A) = none := by
    rw [← Option.not_isSome_iff_eq_none, mapM_isSome]
    intro hall
    have hsome := hall _ (List.mem_map_of_mem hrecord)
    rw [hnone] at hsome
    cases hsome
  have hsealed : (SegmentObject.fromRecords segmentId generation
      vault.db.segmentRecordsForSnapshot).sealed A =
      .error .json := SealedObject.fromRecords_error hrecords
  rw [publishObject, publishSegmentRecords, hfresh]
  dsimp only
  rw [hsealed]
  rfl

/-- `publish_segment` under a new id. -/
theorem publishSegment_new (hsync : Synced A.toEngineFormat vault.db entries) {segmentId : String}
    (hnew : ∀ segment ∈ vault.db.manifest.segments, segment.segmentId ≠ segmentId) :
    vault.publishSegment A segmentId = vault.publishObject A segmentId
      (vault.db.manifest.segments.length + 1) vault.db.manifest fun _ => true := by
  have hread := readManifest_of_manifest hsync.isSealed hsync.manifestFile
  have hfind : (vault.db.manifest.segments.find? fun segment => segment.segmentId = segmentId) =
      none := by
    rw [List.find?_eq_none]
    intro segment hsegment
    simpa using hnew segment hsegment
  rw [publishSegment, publishSegmentWithParentGeneration, hread]
  dsimp only
  rw [if_neg (not_not.2 rfl), hfind]

theorem not_isBlank_compactId (vault : Vault S) : Text.isBlank vault.compactId = false := by
  have hhead : vault.compactId.toList =
      'c' :: ("ompact-".toList ++ (toString vault.db.manifest.latestEpoch ++ "-" ++
      toString (vault.db.manifest.manifestGeneration + 1)).toList) := by
    rw [compactId, String.append_assoc, String.append_assoc, String.toList_append,
      ← String.append_assoc]
    rfl
  exact Text.isBlank_of_head hhead (by decide)

/-- `compact`, when its id is new. -/
theorem compact_new (hsync : Synced A.toEngineFormat vault.db entries)
    (hnew : ∀ segment ∈ vault.db.manifest.segments, segment.segmentId ≠ vault.compactId) :
    vault.compact A = vault.publishObject A vault.compactId
      (vault.db.manifest.manifestGeneration + 1) vault.db.manifest fun id => id ∉
        (vault.db.manifest.segments.filter fun segment =>
        segment.state = .published).map (·.segmentId) := by
  have hread := readManifest_of_manifest hsync.isSealed hsync.manifestFile
  have hany : ¬ (vault.db.manifest.segments.any fun segment => segment.segmentId =
      vault.compactId) = true := by
    rw [List.any_eq_true]
    rintro ⟨segment, hsegment, hsame⟩
    exact hnew segment hsegment (by simpa using hsame)
  rw [compact, publishCompactedSegment, hread]
  dsimp only
  rw [if_neg (not_not.2 rfl), if_neg hany]

end Vault

/-! ### What operations bring -/

/-- Fields that come from fields that can be sealed, or are strings. -/
theorem SealableFields.of_sources {schema : TableSchema} {fields : Fields}
    (h : ∀ (name : String) (value : Value), fields[name]? = some value → (∃ s, value = .string s) ∨
      ∃ source : Fields, SealableFields A schema source ∧ source[name]? = some value) :
    SealableFields A schema fields where
  value name value hvalue := by
    rcases h name value hvalue with ⟨s, rfl⟩ | ⟨source, hsource, hfound⟩
    · exact ⟨.string s, rfl, rfl⟩
    · exact hsource.value name value hfound
  vector vector hvector items xs hitems := by
    rcases h vector.name (.array items) hitems with ⟨s, hs⟩ | ⟨source, hsource, hfound⟩
    · cases hs
    · exact hsource.vector vector hvector items xs hfound

theorem SealableFields.replacement {sourceHash : Fields → List String → ℕ} {schema : TableSchema}
    {input : RecordInput} {epoch : Epoch} {record : StoredRecord}
    (h : SealableFields A schema input.fields)
    (hnew : buildReplacementRecord sourceHash schema input epoch = .ok record) :
    SealableFields A schema record.fields := by
  simp only [buildReplacementRecord, Except.bind_eq_ok_iff, Except.guard_eq_ok_iff] at hnew
  obtain ⟨_, -, ⟨⟩, -, -, _, -, hnew⟩ := hnew
  obtain rfl := Except.ok.inj hnew
  refine .of_sources fun name value hvalue => ?_
  rw [Std.ExtTreeMap.getElem?_insert, Std.ExtTreeMap.getElem?_insert] at hvalue
  split_ifs at hvalue
  · exact .inl ⟨_, (Option.some.inj hvalue).symm⟩
  · exact .inl ⟨_, (Option.some.inj hvalue).symm⟩
  · exact .inr ⟨input.fields, h, hvalue⟩

theorem SealableFields.mutation {sourceHash : Fields → List String → ℕ} {schema : TableSchema}
    {mutation : RecordInput} {previous : Option StoredRecord} {epoch : Epoch}
    {record : StoredRecord} (h : SealableFields A schema mutation.fields)
    (hprevious : ∀ old, previous = some old → SealableFields A schema old.fields)
    (hnew : buildMutationRecord sourceHash schema mutation previous epoch = .ok record) :
    SealableFields A schema record.fields := by
  simp only [buildMutationRecord, Except.bind_eq_ok_iff, Except.guard_eq_ok_iff] at hnew
  obtain ⟨_, -, ⟨⟩, -, -, _, -, hnew⟩ := hnew
  obtain rfl := Except.ok.inj hnew
  refine .of_sources fun name value hvalue => ?_
  rcases mergedFields_cases hvalue with hs | hfound
  · exact .inl hs
  · rw [carried, Option.or_eq_some_iff] at hfound
    rcases hfound with hown | ⟨-, hold⟩
    · exact .inr ⟨mutation.fields, h, hown⟩
    · obtain ⟨old, hprev, hold⟩ := Option.bind_eq_some_iff.1 hold
      exact .inr ⟨old.fields, hprevious old hprev, hold⟩

/-- The fields of an input can be sealed under the schema of its table. -/
def Db.InputSealable (A : ArtifactFormat S) (db : Db) (input : RecordInput) : Prop :=
  ∀ schema, findTable db.manifest.schemas input.table = some schema →
    SealableFields A schema input.fields

/-- The fields that an operation writes can be sealed, and those of a table under its new schema. -/
def Op.Sealable (A : ArtifactFormat S) (db : Db) : Op → Prop
  | .insert input _ | .put input _ | .patch input _ => db.InputSealable A input
  | .putBatch records _ => ∀ input ∈ records, db.InputSealable A input
  | .applySchema schema _ =>
    ∀ record ∈ RecordStore.allVisibleRecords (db.store.snapshot db.manifest.latestEpoch)
      schema.name, SealableFields A schema record.fields
  | _ => True

theorem Op.Sealable.brings {F : EngineFormat} {op : Op} (h : op.Sealable A db) :
    op.Brings F (SealableFields A) db := by
  cases op with
  | applySchema schema receipt => exact h
  | insert input receipt | patch input receipt =>
    rintro write ⟨schema, hschema, rfl⟩ previous record hprevious hnew
    exact (h schema hschema).mutation hprevious hnew
  | put input receipt =>
    rintro write ⟨schema, hschema, rfl⟩ record hnew
    exact (h schema hschema).replacement hnew
  | putBatch records receipt =>
    rintro write ⟨input, hinput, schema, hschema, rfl⟩ record hnew
    exact (h input hinput schema hschema).replacement hnew
  | delete deletion receipt =>
    rintro write ⟨schema, -, rfl⟩
    exact trivial
  | setFeatureStatus invalidation =>
    rintro write ⟨-, rfl⟩
    exact trivial
  | _ => exact fun write hwrite => absurd hwrite id

/-! ### Runs -/

/-- The records of a snapshot are read back. -/
theorem settles_segmentRecords {F : EngineFormat} {entries : List WalEntry}
    (hsync : Synced F db entries) (h : db.AllVisible (SealableFields A)) :
    ∀ record ∈ db.segmentRecordsForSnapshot,
      Settles (IndexRecord.reread A) (indexRecordFromSegment A.toQueryFormat record) := by
  intro record hrecord
  obtain ⟨schema, hschema, hrecord⟩ := List.mem_flatMap.1 hrecord
  obtain ⟨stored, hstored, rfl⟩ := List.mem_map.1 hrecord
  obtain ⟨hvisible, htable⟩ := List.mem_filter.1 hstored
  refine settles_segmentRecord (h stored hvisible schema ?_)
  rw [of_decide_eq_true htable]
  exact findTable_of_mem hsync.names hschema

/-- Operations write no segments. -/
theorem segments_runAll (F : EngineFormat) [F.Lossless] (dir : String) (ops : List Op) :
    ((initialDb F dir).runAll F ops).disk.segments = ∅ ∧
      ((initialDb F dir).runAll F ops).manifest.segments = [] := by
  have hreach : ∀ done, Reachable F dir ((initialDb F dir).runAll F done) :=
    (Reachable.opened (open_empty_eq dir)).runAll
  induction ops using List.reverseRecOn with
  | nil => exact ⟨rfl, rfl⟩
  | append_singleton ops op ih =>
    obtain ⟨entries, hsync⟩ := (hreach ops).synced
    rw [Db.runAll_snoc]
    rcases hsync.run_cases op with hsame | ⟨plan, -, -, hrun, -⟩
    · rw [hsame]
      exact ih
    · rw [hrun]
      exact ih

/-- No segment of a run has an id. -/
theorem fresh_runAll (F : EngineFormat) [F.Lossless] (dir : String) (ops : List Op)
    (segmentId : String) :
    ((initialDb F dir).runAll F ops).disk.segments[segmentId]? = none ∧
      ∀ segment ∈ ((initialDb F dir).runAll F ops).manifest.segments,
      segment.segmentId ≠ segmentId := by
  obtain ⟨hfiles, hsegments⟩ := segments_runAll F dir ops
  rw [hfiles, hsegments]
  exact ⟨Std.ExtTreeMap.getElem?_empty, by simp⟩

/-- A record of a run that is not read back stops every publication. -/
theorem records_not_sealed {dir : String} {ops : List Op} {record : SegmentRecord}
    (hrecord : record ∈
      ((initialDb A.toEngineFormat dir).runAll A.toEngineFormat ops).segmentRecordsForSnapshot)
    (hnone : (indexRecordFromSegment A.toQueryFormat record).reread A = none)
    (artifacts : Std.ExtTreeMap String (IndexArtifact S) compare) (indexes : List IndexEntry) :
    let vault : Vault S :=
  ⟨(initialDb A.toEngineFormat dir).runAll A.toEngineFormat ops, artifacts, indexes⟩
    (∀ segmentId, vault.publishSegment A segmentId = (.error .json, vault)) ∧
      vault.compact A = (.error .json, vault) := by
  intro vault
  obtain ⟨entries, hsync⟩ :=
    ((Reachable.opened (F := A.toEngineFormat) (open_empty_eq dir)).runAll ops).synced
  have hfresh : ∀ segmentId, vault.db.disk.segments[segmentId]? = none ∧
      ∀ segment ∈ vault.db.manifest.segments, segment.segmentId ≠ segmentId :=
        fresh_runAll A.toEngineFormat dir ops
  have hvault : Synced A.toEngineFormat vault.db entries := hsync
  have hstored : record ∈ vault.db.segmentRecordsForSnapshot := hrecord
  refine ⟨fun segmentId => ?_, ?_⟩
  · rw [Vault.publishSegment_new hvault (hfresh segmentId).2]
    exact Vault.publishObject_error (hfresh segmentId).1 hstored hnone _ _ _
  · rw [Vault.compact_new hvault (hfresh vault.compactId).2]
    exact Vault.publishObject_error (hfresh vault.compactId).1 hstored hnone _ _ _

/-- **Records of a run can be sealed**, if every operation that returned wrote fields that can
be. -/
theorem records_sealed {dir : String} {ops : List Op}
    (hops : ∀ done op reply after, done ++ [op] <+: ops →
      ((initialDb A.toEngineFormat dir).runAll A.toEngineFormat done).run A.toEngineFormat op =
        (.ok reply, after) →
        op.Sealable A ((initialDb A.toEngineFormat dir).runAll A.toEngineFormat done))
    (artifacts : Std.ExtTreeMap String (IndexArtifact S) compare) (indexes : List IndexEntry) :
    let vault : Vault S :=
  ⟨(initialDb A.toEngineFormat dir).runAll A.toEngineFormat ops, artifacts, indexes⟩
    (∀ segmentId, Text.isBlank segmentId = false → ∃ after,
      vault.publishSegment A segmentId = (.ok (), after)) ∧
      ∃ after, vault.compact A = (.ok (), after) := by
  intro vault
  obtain ⟨entries, hsync⟩ :=
    ((Reachable.opened (F := A.toEngineFormat) (open_empty_eq dir)).runAll ops).synced
  have hrecords := settles_segmentRecords hsync
    (allVisible_runAll fun done op reply after hstart hrun =>
    (hops done op reply after hstart hrun).brings)
  have hfresh : ∀ segmentId, vault.db.disk.segments[segmentId]? = none ∧
      ∀ segment ∈ vault.db.manifest.segments, segment.segmentId ≠ segmentId :=
        fresh_runAll A.toEngineFormat dir ops
  have hvault : Synced A.toEngineFormat vault.db entries := hsync
  refine ⟨fun segmentId hid => ?_, ?_⟩
  · rw [Vault.publishSegment_new hvault (hfresh segmentId).2]
    exact Vault.publishObject_ok hvault hid (hfresh segmentId).1 hrecords _ _ _
  · rw [Vault.compact_new hvault (hfresh vault.compactId).2]
    exact Vault.publishObject_ok hvault vault.not_isBlank_compactId
      (hfresh vault.compactId).1 hrecords _ _ _

/-! ### Vectors of one dimension -/

/-- The reference format of artifacts, with a bound on the floats that are finite. -/
def ArtifactFormat.reference : ArtifactFormat ℚ where
  toQueryFormat := { QueryFormat.reference with
    toF32 := { F32.rational with isFinite := fun x => decide (F32.rational.abs x < 2 ^ 128) } }
  toEngineFormat := .reference
  rereadF64 := some
  rereadF32 := some
  recordsBytes records := records.flatMap fun record => utf8 record.recordId
  objectBytes object :=
    utf8 object.segmentId ++ object.records.flatMap fun record => utf8 record.recordId
  artifactBytes artifact := utf8 artifact.indexId
  lossless := EngineFormat.lossless_reference

/-- A document whose embedding is `[1e39]`, over the range of an `f32`. -/
def farDoc : RecordInput :=
  ⟨"docs", "a", "t",
    Std.ExtTreeMap.insert (Std.ExtTreeMap.insert ∅ "body" (.string "x")) "embedding"
    (.array [.number (.float 0x48078287f49c4a1d)])⟩

/-- A table of documents, and the document. -/
def farOps : List Op := [.applySchema (embeddedDocs 1) none, .put farDoc none]

/-- **A component beyond `f32`**: all calls return `Ok`, and no publication does. -/
theorem far_vector_unsealed :
    (∀ done op, done ++ [op] <+: farOps → ∃ reply db',
      ((initialDb .reference "db").runAll .reference done).run .reference op = (.ok reply, db')) ∧
    let vault : Vault ℚ := ⟨(initialDb .reference "db").runAll .reference farOps, ∅, []⟩
    vault.publishSegment .reference "s" = (.error .json, vault) ∧
      vault.compact .reference = (.error .json, vault) := by
  have hcommits : ((initialDb .reference "db").commitAllSmall [] farOps).any (fun after =>
      after.1.segmentRecordsForSnapshot.any fun record =>
        ((indexRecordFromSegment ArtifactFormat.reference.toQueryFormat record).reread
          .reference).isNone) =
          true := by
    decide +kernel
  obtain ⟨⟨after, entries⟩, hcommits, hwrong⟩ := (Option.any_eq_true _ _).1 hcommits
  have hsync : Synced .reference (initialDb .reference "db") [] := synced_initialDb "db"
  refine ⟨fun done op => hsync.run_of_commitAll (Db.commitAll_of_small hcommits), ?_⟩
  obtain ⟨record, hrecord, hnone⟩ := List.any_eq_true.1 hwrong
  have hrun : record ∈ ((initialDb ArtifactFormat.reference.toEngineFormat "db").runAll
      ArtifactFormat.reference.toEngineFormat farOps).segmentRecordsForSnapshot := by
    show record ∈ ((initialDb .reference "db").runAll .reference farOps).segmentRecordsForSnapshot
    rw [(hsync.runAll_of_commitAllSmall hcommits).1]
    exact hrecord
  have hstop := records_not_sealed hrun (Option.isNone_iff_eq_none.1 hnone) ∅ []
  exact ⟨hstop.1 "s", hstop.2⟩

theorem embeddedDoc_sealable (schema : TableSchema) :
    SealableFields .reference schema embeddedDoc.fields := by
  have hlist : embeddedDoc.fields.toList = [("body", .string "x"),
      ("embedding", .array [.number (.posInt 1), .number (.posInt 2)])] := rfl
  have hcases : ∀ (name : String) (value : Value), embeddedDoc.fields[name]? = some value →
      value = .string "x" ∨ value = .array [.number (.posInt 1), .number (.posInt 2)] := by
    intro name value hvalue
    have hmem : (name, value) ∈ embeddedDoc.fields.toList := SortedMap.mem_toList.2 hvalue
    rw [hlist] at hmem
    simp only [List.mem_cons, Prod.mk.injEq, List.not_mem_nil, or_false] at hmem
    exact hmem.imp And.right And.right
  constructor
  · intro name value hvalue
    rcases hcases name value hvalue with rfl | rfl
    · exact ⟨_, rfl, rfl⟩
    · exact ⟨_, rfl, rfl⟩
  · intro vector _ items xs hitems hfloats x hx
    rcases hcases vector.name _ hitems with hstring | harray
    · cases hstring
    · obtain rfl := Value.array.inj harray
      obtain rfl : [1, 2] = xs := Option.some.inj hfloats
      simp only [List.mem_cons, List.not_mem_nil, or_false] at hx
      rcases hx with rfl | rfl
      · exact ⟨1, by decide +kernel, by decide +kernel⟩
      · exact ⟨2, by decide +kernel, by decide +kernel⟩

/-- A document with a vector of small numbers is sealed. -/
theorem embeddedDoc_sealed :
    let vault : Vault ℚ := ⟨(initialDb .reference "db").runAll .reference
      [.applySchema (embeddedDocs 2) none, .put embeddedDoc none], ∅, []⟩
    (∃ after, vault.publishSegment .reference "s" = (.ok (), after)) ∧
      ∃ after, vault.compact .reference = (.ok (), after) := by
  have hops : ∀ done op reply after, done ++ [op] <+: [Op.applySchema (embeddedDocs 2) none,
      .put embeddedDoc none] →
      ((initialDb ArtifactFormat.reference.toEngineFormat "db").runAll
        ArtifactFormat.reference.toEngineFormat
        done).run ArtifactFormat.reference.toEngineFormat op = (.ok reply, after) →
          op.Sealable ArtifactFormat.reference
            ((initialDb ArtifactFormat.reference.toEngineFormat "db").runAll
            ArtifactFormat.reference.toEngineFormat done) := by
    intro done op reply after hstart _
    cases done with
    | nil =>
      -- The schema is applied to no records.
      obtain ⟨rfl, -⟩ := List.cons_prefix_cons.1 hstart
      intro record hrecord
      cases (List.mem_filter.1 hrecord).1
    | cons first done =>
      obtain ⟨-, hstart⟩ := List.cons_prefix_cons.1 hstart
      cases done with
      | nil =>
        obtain ⟨rfl, -⟩ := List.cons_prefix_cons.1 hstart
        exact fun schema _ => embeddedDoc_sealable schema
      | cons second done =>
        obtain ⟨-, hstart⟩ := List.cons_prefix_cons.1 hstart
        simp at hstart
  obtain ⟨hpublish, hcompact⟩ := records_sealed hops ∅ []
  exact ⟨hpublish "s" (by decide), hcompact⟩

end TraceDB
