import TraceDB.Vault.Calls

/-!
# What a published segment holds

A publication seals the visible records, but an object that is already there under its id is taken
as it is: one that a compaction has left behind, or a publication that was broken off.

* `RecordStore.nodup_snapshot` : a snapshot has every record once.
* `SealedObject.HoldsVisible` : an object has just the visible records.
* `publication_faithful_iff` : the object of a new entry of the manifest has them just when none
  stood under its id and all values are read back as they are, or the one that stood there has them.
-/

namespace TraceDB

variable {S : Type} {A : ArtifactFormat S}

/-! ### Rows -/

/-- What a segment keeps of a record. -/
structure RecordRow where
  table : String
  tenantId : String
  recordId : String
  versionId : ℕ
  fields : Fields

/-- The row of a stored record. -/
def StoredRecord.row (record : StoredRecord) : RecordRow :=
  ⟨record.header.tableId, record.header.tenantId, record.header.recordId, record.header.versionId,
    record.fields⟩

/-- The row of a record of a segment object. -/
def IndexRecord.row (record : IndexRecord S) : RecordRow :=
  ⟨record.table, record.tenantId, record.recordId, record.versionId, record.fields⟩

/-- The record that a row is of. -/
def RecordRow.triple (row : RecordRow) : RecordTriple := ⟨row.table, row.tenantId, row.recordId⟩

/-- The rows of the visible records of all tables. -/
def Db.visibleRows (db : Db) : List RecordRow :=
  ((db.store.snapshot db.manifest.latestEpoch).filter fun record =>
    decide (record.header.tableId ∈ db.manifest.schemas.map (·.name))).map StoredRecord.row

/-- The object has just the visible records, each once. -/
structure SealedObject.HoldsVisible (db : Db) (object : SealedObject S) : Prop where
  rows : ∀ row, row ∈ object.records.map IndexRecord.row ↔ row ∈ db.visibleRows
  once : (object.records.map fun record => record.row.triple).Nodup

/-! ### Snapshots -/

/-- A snapshot has every record once. -/
theorem RecordStore.Keyed.nodup_snapshot {store : RecordStore} (h : store.Keyed) (epoch : Epoch) :
    ((store.snapshot epoch).map StoredRecord.triple).Nodup := by
  have hkeys : store.versions.toList.Pairwise fun a b => a.1 ≠ b.1 :=
    Std.ExtTreeMap.distinct_keys_toList.imp fun hne heq => hne (compare_eq_iff_eq.2 heq)
  rw [RecordStore.snapshot, List.Nodup, List.pairwise_map, List.pairwise_filterMap]
  refine hkeys.imp_of_mem fun {a b} ha hb hne record hrecord other hother hsame => hne ?_
  -- A version is under its own key.
  have hown : ∀ {e : String × Versions} {record : StoredRecord}, e ∈ store.versions.toList →
      visibleRecordAt e.2 epoch = some record → record.triple.key = e.1 := fun hmem hvisible =>
    (h _ _ (SortedMap.mem_toList.1 hmem) _ (List.mem_of_findLast? hvisible)).1
  rw [← hown ha hrecord, ← hown hb hother, hsame]

theorem mem_segmentRecordsForSnapshot {db : Db} {record : SegmentRecord} :
    record ∈ db.segmentRecordsForSnapshot ↔ ∃ schema ∈ db.manifest.schemas,
      ∃ stored ∈ db.store.snapshot db.manifest.latestEpoch, stored.header.tableId = schema.name ∧
        segmentRecordOf schema stored = record := by
  simp only [Db.segmentRecordsForSnapshot, List.mem_flatMap, List.mem_map,
    RecordStore.allVisibleRecords, List.mem_filter, decide_eq_true_eq, and_assoc]

/-- The sealed records are the visible ones. -/
theorem mem_rows_segmentRecords {db : Db} {row : RecordRow} :
    row ∈ (db.segmentRecordsForSnapshot.map (indexRecordFromSegment A.toQueryFormat)).map
      IndexRecord.row ↔
      row ∈ db.visibleRows := by
  simp only [Db.visibleRows, List.mem_map, List.mem_filter, decide_eq_true_eq]
  constructor
  · rintro ⟨-, ⟨record, hrecord, rfl⟩, rfl⟩
    obtain ⟨schema, hschema, stored, hstored, htable, rfl⟩ :=
      mem_segmentRecordsForSnapshot.1 hrecord
    exact ⟨stored, ⟨hstored, schema, hschema, htable.symm⟩, rfl⟩
  · rintro ⟨stored, ⟨hstored, schema, hschema, htable⟩, rfl⟩
    exact ⟨_, ⟨segmentRecordOf schema stored,
      mem_segmentRecordsForSnapshot.2 ⟨schema, hschema, stored, hstored, htable.symm, rfl⟩, rfl⟩,
      rfl⟩

/-- Every record is sealed once. -/
theorem nodup_segmentRecords {db : Db} (hkeyed : db.store.Keyed)
    (hnames : (db.manifest.schemas.map (·.name)).Nodup) :
    ((db.segmentRecordsForSnapshot.map (indexRecordFromSegment A.toQueryFormat)).map fun record =>
      record.row.triple).Nodup := by
  have hrows : (db.segmentRecordsForSnapshot.map (indexRecordFromSegment A.toQueryFormat)).map
      (fun record => record.row.triple) = db.manifest.schemas.flatMap fun schema =>
        (RecordStore.allVisibleRecords (db.store.snapshot db.manifest.latestEpoch) schema.name).map
          StoredRecord.triple := by
    rw [Db.segmentRecordsForSnapshot, List.map_map, List.map_flatMap]
    refine congrArg₂ _ (funext fun schema => ?_) rfl
    rw [List.map_map]
    rfl
  rw [hrows, List.nodup_flatMap]
  refine ⟨fun schema _ => (hkeyed.nodup_snapshot _).sublist (List.filter_sublist.map _), ?_⟩
  -- The records of two tables are different ones.
  refine (List.pairwise_map.1 hnames).imp fun {a b} hne => ?_
  refine List.disjoint_left.2 fun triple ha hb => ?_
  obtain ⟨first, hfirst, rfl⟩ := List.mem_map.1 ha
  obtain ⟨second, hsecond, hsame⟩ := List.mem_map.1 hb
  refine hne ((of_decide_eq_true (List.mem_filter.1 hfirst).2).symm.trans ?_)
  rw [← of_decide_eq_true (List.mem_filter.1 hsecond).2]
  exact (congrArg (·.table) hsame).symm

/-! ### Objects -/

theorem readSegmentObject_eq_ok {disk : Disk} {segmentId : String} {object : SealedObject S}
    (h : Vault.readSegmentObject A disk segmentId = .ok object) :
    ∃ file, disk.segments[segmentId]? = some file ∧ object.segmentId = file.segmentId ∧
      object.generation = file.generation ∧ object.state = .published ∧
        (file.records.map (indexRecordFromSegment A.toQueryFormat)).mapM (IndexRecord.reread A) =
          some object.records := by
  rw [Vault.readSegmentObject] at h
  cases hfile : disk.segments[segmentId]? with
  | none =>
    rw [hfile] at h
    cases h
  | some file =>
    rw [hfile] at h
    simp only [Except.bind_eq_ok_iff] at h
    obtain ⟨written, hwritten, h⟩ := h
    simp only [SegmentObject.sealed, SealedObject.fromRecords, Except.bind_eq_ok_iff] at hwritten
    obtain ⟨checksum, -, hwritten⟩ := hwritten
    obtain rfl := Except.ok.inj hwritten
    split at h
    · cases h
    · rename_i again hagain
      rw [Except.bind_eq_ok_iff] at h
      obtain ⟨-, -, h⟩ := h
      obtain rfl := Except.ok.inj h
      rw [SealedObject.reread, Option.bind_eq_bind, Option.bind_eq_some_iff] at hagain
      obtain ⟨records, hrecords, hagain⟩ := hagain
      obtain rfl := Option.some.inj hagain
      exact ⟨file, rfl, rfl, rfl, rfl, hrecords⟩

/-- What is read back is the record itself, but for the values of its fields. -/
theorem IndexRecord.row_reread {record again : IndexRecord S} (h : record.reread A = some again) :
    again.row.triple = record.row.triple ∧ again.versionId = record.versionId ∧
      SortedMap.traverse (readBackValue A segmentOuter) record.fields = some again.fields := by
  rw [reread, Option.bind_eq_bind, Option.bind_eq_some_iff] at h
  obtain ⟨fields, hfields, h⟩ := h
  obtain ⟨vectors, -, h⟩ := Option.bind_eq_some_iff.1 h
  obtain rfl := Option.some.inj h
  exact ⟨rfl, rfl, hfields⟩

/-- An object of the visible records has them as they are just when all their values are read back
as they are. -/
theorem holdsVisible_iff {db : Db} (hkeyed : db.store.Keyed)
    (hnames : (db.manifest.schemas.map (·.name)).Nodup) {object : SealedObject S}
    (h : (db.segmentRecordsForSnapshot.map (indexRecordFromSegment A.toQueryFormat)).mapM
      (IndexRecord.reread A) =
      some object.records) :
    object.HoldsVisible db ↔ ∀ record ∈ db.segmentRecordsForSnapshot,
      SortedMap.traverse (readBackValue A segmentOuter) record.fields = some record.fields := by
  have hnodup := nodup_segmentRecords (A := A) hkeyed hnames
  have hpairs := mapM_eq_some.1 h
  have honce : (object.records.map fun record => record.row.triple).Nodup := by
    rw [map_of_mapM (fun _ _ hagain => (IndexRecord.row_reread hagain).1) h]
    exact hnodup
  constructor
  · intro hholds record hrecord
    have hfirst := List.mem_map_of_mem (f := indexRecordFromSegment A.toQueryFormat) hrecord
    obtain ⟨again, hmem, hagain⟩ := exists_of_mapM h hfirst
    obtain ⟨htriple, -, hfields⟩ := IndexRecord.row_reread hagain
    -- A visible record with the same identity is the record itself.
    obtain ⟨other, hother, hrow⟩ := List.mem_map.1
      (mem_rows_segmentRecords.2 ((hholds.rows again.row).1 (List.mem_map_of_mem hmem)))
    obtain rfl := List.inj_on_of_nodup_map hnodup hother hfirst
      ((congrArg RecordRow.triple hrow).trans htriple)
    exact hfields.trans (congrArg some (congrArg RecordRow.fields hrow).symm)
  · intro hself
    have hrow : ∀ {first again : IndexRecord S},
        first ∈ db.segmentRecordsForSnapshot.map (indexRecordFromSegment A.toQueryFormat) →
          first.reread A = some again → again.row = first.row := by
      intro first again hfirst hagain
      obtain ⟨record, hrecord, rfl⟩ := List.mem_map.1 hfirst
      obtain ⟨htriple, hversion, hfields⟩ := IndexRecord.row_reread hagain
      obtain ⟨htable, htenant, hid⟩ := RecordTriple.mk.inj htriple
      have hsame : record.fields = again.fields :=
        Option.some.inj ((hself record hrecord).symm.trans hfields)
      rw [IndexRecord.row, RecordRow.mk.injEq]
      exact ⟨htable, htenant, hid, hversion, hsame.symm⟩
    refine ⟨fun row => ?_, honce⟩
    rw [← mem_rows_segmentRecords (A := A), List.mem_map, List.mem_map]
    constructor
    · rintro ⟨again, hmem, rfl⟩
      obtain ⟨first, hfirst, hagain⟩ := exists_of_mem_mapM h hmem
      exact ⟨first, hfirst, (hrow hfirst hagain).symm⟩
    · rintro ⟨first, hfirst, rfl⟩
      obtain ⟨again, hmem, hagain⟩ := exists_of_mapM h hfirst
      exact ⟨again, hmem, hrow hfirst hagain⟩

/-! ### Publications -/

namespace Vault

variable {vault after : Vault S} {segmentId : String}

/-- What is read under an id has it. -/
theorem Named.segmentId_of_read (h : vault.Named) {object : SealedObject S}
    (hread : readSegmentObject A vault.db.disk segmentId = .ok object) :
    object.segmentId = segmentId := by
  obtain ⟨file, hfile, hid, -⟩ := readSegmentObject_eq_ok hread
  exact hid.trans (h segmentId file hfile)

/-- The entry refers to an object of its generation, which has just the visible records. -/
def Faithful (A : ArtifactFormat S) (vault : Vault S) (entry : SegmentManifest) : Prop :=
  ∃ object : SealedObject S, readSegmentObject A vault.db.disk entry.segmentId = .ok object ∧
    object.generation = entry.generation ∧ object.HoldsVisible vault.db

/-- No object stands under the id and the values of all visible records are read back as they are,
or the one that stands there has just the visible records. -/
def SealsVisible (A : ArtifactFormat S) (vault : Vault S) (segmentId : String) : Prop :=
  (vault.db.disk.segments[segmentId]? = none → ∀ record ∈ vault.db.segmentRecordsForSnapshot,
    SortedMap.traverse (readBackValue A segmentOuter) record.fields = some record.fields) ∧
  ∀ object : SealedObject S, readSegmentObject A vault.db.disk segmentId = .ok object →
    object.HoldsVisible vault.db

/-- The new entry of a publication. -/
theorem publishObject_faithful (h : vault.Sound A) {generation : ℕ} {keeps : String → Bool}
    (hout : vault.publishObject A segmentId generation vault.db.manifest keeps = (.ok (), after)) :
    ∃ entry : SegmentManifest,
      after.db.manifest.segments =
        (vault.db.manifest.segments.filter fun segment => keeps segment.segmentId) ++ [entry] ∧
      entry.segmentId = segmentId ∧ (after.Faithful A entry ↔ vault.SealsVisible A segmentId) := by
  obtain ⟨entries, hsync⟩ := h.synced
  obtain ⟨written, hwrote, ⟨e, herror⟩ | ⟨object, hread, hok⟩⟩ :=
    publishObject_cases hsync segmentId generation keeps
  · cases hout.symm.trans herror
  obtain ⟨-, rfl⟩ := Prod.mk.inj (hout.symm.trans hok)
  obtain ⟨file, hfile, -, -, -, hrecords⟩ := readSegmentObject_eq_ok hread
  have hname : object.segmentId = segmentId := (h.named.wrote hwrote).segmentId_of_read hread
  have hsegments : written.db.manifest.segments = vault.db.manifest.segments :=
    congrArg Manifest.segments hwrote.manifest
  have hrows : (written.withPublication A object keeps).db.visibleRows = vault.db.visibleRows := by
    rcases hwrote with rfl | ⟨-, rfl⟩ <;> rfl
  have hholds : (written.withPublication A object keeps).Faithful A object.manifest ↔
      object.HoldsVisible vault.db := by
    have hdisk : readSegmentObject A (written.withPublication A object keeps).db.disk segmentId =
        .ok object := hread
    constructor
    · rintro ⟨other, hother, -, hrow, honce⟩
      obtain rfl := Except.ok.inj (hother.symm.trans ((congrArg _ hname).trans hdisk))
      exact ⟨hrows ▸ hrow, honce⟩
    · rintro ⟨hrow, honce⟩
      exact ⟨object, (congrArg _ hname).trans hdisk, rfl, hrows ▸ hrow, honce⟩
  have hafter : (written.withPublication A object keeps).db.manifest.segments =
      (written.db.manifest.segments.filter fun segment => keeps segment.segmentId) ++
        [object.manifest] := rfl
  rw [hsegments] at hafter
  refine ⟨object.manifest, hafter, hname, ?_⟩
  rw [hholds, SealsVisible]
  rcases hwrote with rfl | ⟨hnone, rfl⟩
  · -- The object was there.
    constructor
    · refine fun hobject => ⟨fun hnone => ?_, fun other hother => ?_⟩
      · cases hnone.symm.trans hfile
      · rwa [← Except.ok.inj (hread.symm.trans hother)]
    · exact fun hseals => hseals.2 object hread
  · have hsame : file = vault.objectFile segmentId generation := by
      have hinsert : (vault.db.disk.segments.insert segmentId
          (vault.objectFile segmentId generation))[segmentId]? =
        some file := hfile
      rw [Std.ExtTreeMap.getElem?_insert_self] at hinsert
      exact (Option.some.inj hinsert).symm
    subst hsame
    rw [holdsVisible_iff h.keyed hsync.names hrecords]
    constructor
    · refine fun hself => ⟨fun _ => hself, fun other hother => ?_⟩
      rw [readSegmentObject, hnone] at hother
      cases hother
    · exact fun hseals => hseals.1 hnone

end Vault

/-- **What a publication seals**: the object of the new entry has the entry's generation and just
the visible records, if and only if none stood under its id and all values are read back as they
are, or the one that stood there has them; and after a compaction no other segment is published. -/
theorem publication_faithful_iff {dir : String} {vault : Vault S}
    (h : Vault.Reachable A dir vault) :
    (∀ (segmentId : SegmentId) after,
      (∀ segment ∈ vault.db.manifest.segments, segment.segmentId ≠ segmentId.id) →
      vault.publishSegment A segmentId.id = (.ok (), after) →
        ∃ entry, after.db.manifest.segments = vault.db.manifest.segments ++ [entry] ∧
          (after.Faithful A entry ↔ vault.SealsVisible A segmentId.id)) ∧
    ∀ after, vault.compact A = (.ok (), after) →
      ∃ entry ∈ after.db.manifest.segments,
        (∀ segment ∈ after.db.manifest.segments, segment.state = .published → segment = entry) ∧
          (after.Faithful A entry ↔ vault.SealsVisible A vault.compactId) := by
  have hsound := h.sound
  obtain ⟨entries, hsync⟩ := hsound.synced
  constructor
  · intro segmentId after hnew hout
    rw [Vault.publishSegment_new hsync hnew] at hout
    obtain ⟨entry, hsegments, -, hiff⟩ := Vault.publishObject_faithful hsound hout
    rw [List.filter_true] at hsegments
    exact ⟨entry, hsegments, hiff⟩
  · intro after hout
    by_cases hknown : ∃ segment ∈ vault.db.manifest.segments, segment.segmentId = vault.compactId
    · obtain ⟨e, herror⟩ := Vault.compact_known hsync hknown
      cases hout.symm.trans herror
    · push Not at hknown
      rw [Vault.compact_new hsync hknown] at hout
      obtain ⟨entry, hsegments, -, hiff⟩ := Vault.publishObject_faithful hsound hout
      refine ⟨entry, ?_, fun segment hsegment hpublished => ?_, hiff⟩
      · rw [hsegments]
        exact List.mem_append_right _ List.mem_cons_self
      · rw [hsegments] at hsegment
        rcases List.mem_append.1 hsegment with hkept | hlast
        · -- Whatever was published is dropped.
          obtain ⟨hmem, hkeeps⟩ := List.mem_filter.1 hkept
          refine absurd (List.mem_map_of_mem (List.mem_filter.2 ⟨hmem, ?_⟩))
            (of_decide_eq_true hkeeps)
          exact decide_eq_true hpublished
        · exact List.mem_singleton.1 hlast

/-! ### A document in a segment -/

/-- Fields of strings are read back as they are. -/
theorem traverse_of_strings {fields : Fields}
    (h : (fields.toList.all fun e => e.2.asStr.isSome) = true) :
    SortedMap.traverse (readBackValue A segmentOuter) fields = some fields := by
  refine SortedMap.traverse_eq_self.2 fun name value hvalue => ?_
  have hstring := List.all_eq_true.1 h (name, value) (SortedMap.mem_toList.2 hvalue)
  cases value with
  | string s => rfl
  | _ => cases hstring

/-- A record of strings, without vectors, is read back as it is. -/
theorem settles_of_strings {record : SegmentRecord} (hvectors : record.vectors.isEmpty = true)
    (hfields : (record.fields.toList.all fun e => e.2.asStr.isSome) = true) :
    Settles (IndexRecord.reread A) (indexRecordFromSegment A.toQueryFormat record) := by
  have hself : (indexRecordFromSegment A.toQueryFormat record).reread A =
      some (indexRecordFromSegment A.toQueryFormat record) := by
    have hempty : SortedMap.traverse (fun vector => vector.mapM (rereadFloat A))
        (indexRecordFromSegment A.toQueryFormat record).vectors =
          some (indexRecordFromSegment A.toQueryFormat record).vectors := by
      refine SortedMap.traverse_eq_self.2 fun name vector hvector => ?_
      have hnone : record.vectors = ∅ := Std.ExtTreeMap.isEmpty_iff.1 hvectors
      simp [indexRecordFromSegment, hnone] at hvector
    show (SortedMap.traverse (readBackValue A segmentOuter) record.fields >>= _) = _
    rw [traverse_of_strings hfields]
    show (SortedMap.traverse _ (indexRecordFromSegment A.toQueryFormat record).vectors >>= _) = _
    rw [hempty]
    rfl
  exact ⟨_, hself, hself⟩

/-- The records of a snapshot are strings, without vectors. -/
def Db.plainRecords (db : Db) : Bool :=
  db.segmentRecordsForSnapshot.all fun record =>
    record.vectors.isEmpty && record.fields.toList.all fun e => e.2.asStr.isSome

/-- Under a new id they are published, and nothing stands in the way of their values. -/
theorem Vault.publishSegment_plain {vault : Vault S} {entries : List WalEntry}
    (hsync : Synced A.toEngineFormat vault.db entries) {segmentId : String}
    (hid : Text.isBlank segmentId = false) (hfile : vault.db.disk.segments[segmentId]? = none)
    (hnew : ∀ segment ∈ vault.db.manifest.segments, segment.segmentId ≠ segmentId)
    (hplain : vault.db.plainRecords = true) :
    (∃ after, vault.publishSegment A segmentId = (.ok (), after)) ∧
    vault.SealsVisible A segmentId := by
  rw [Db.plainRecords, List.all_eq_true] at hplain
  simp only [Bool.and_eq_true] at hplain
  refine ⟨?_, fun _ record hrecord => traverse_of_strings (hplain record hrecord).2,
    fun object hobject => ?_⟩
  · rw [publishSegment_new hsync hnew]
    exact publishObject_ok hsync hid hfile (fun record hrecord =>
      settles_of_strings (hplain record hrecord).1 (hplain record hrecord).2) _ _ _
  · obtain ⟨file, hthere, -⟩ := readSegmentObject_eq_ok hobject
    cases hfile.symm.trans hthere

theorem Vault.afterCalls_run (vault : Vault S) (ops : List Op) :
    vault.afterCalls A (ops.map .run) =
      { vault with db := vault.db.runAll A.toEngineFormat ops } := by
  induction ops generalizing vault with
  | nil => rfl
  | cons op ops ih => exact ih _

theorem Vault.Reachable.afterCalls {dir : String} {vault : Vault S}
    (h : Vault.Reachable A dir vault) (calls : List VaultCall) :
      Vault.Reachable A dir (vault.afterCalls A calls) := by
  induction calls generalizing vault with
  | nil => exact h
  | cons call calls ih => exact ih (h.call call)

/-- A table of documents, and a document. -/
def plainOps : List Op :=
  [.applySchema plainDocs none,
    .put ⟨"docs", "a", "t", Std.ExtTreeMap.insert ∅ "body" (.string "x")⟩ none]

/-- A vault with a document and no segment. -/
theorem Vault.exists_plain : ∃ vault : Vault ℚ, Vault.Reachable .reference "db" vault ∧
    (∃ entries, Synced (ArtifactFormat.reference).toEngineFormat vault.db entries) ∧
    (∀ segmentId, vault.db.disk.segments[segmentId]? = none ∧
      ∀ segment ∈ vault.db.manifest.segments, segment.segmentId ≠ segmentId) ∧
    vault.db.plainRecords = true ∧ vault.db.segmentRecordsForSnapshot.length = 1 := by
  have hcommits : ((initialDb .reference "db").commitAllSmall [] plainOps).any (fun after =>
      after.1.plainRecords && decide (after.1.segmentRecordsForSnapshot.length = 1)) = true := by
    decide +kernel
  obtain ⟨⟨last, entries⟩, hcommits, hshows⟩ := (Option.any_eq_true _ _).1 hcommits
  obtain ⟨hplain, hlength⟩ := Bool.and_eq_true_iff.1 hshows
  obtain ⟨hrun, hsync⟩ := (synced_initialDb "db").runAll_of_commitAllSmall hcommits
  have hfresh := fun segmentId => fresh_runAll .reference "db" plainOps segmentId
  have hinitial : Vault.Reachable .reference "db" (Vault.initial .reference "db") := .initial
  have hcalls := hinitial.afterCalls (plainOps.map .run)
  rw [Vault.afterCalls_run] at hcalls
  refine ⟨_, hcalls, ?_⟩
  have hdb : (Vault.initial ArtifactFormat.reference "db").db.runAll
      (ArtifactFormat.reference).toEngineFormat plainOps
      = last := hrun
  rw [hrun] at hfresh
  rw [hdb]
  exact ⟨⟨entries, hsync⟩, hfresh, hplain, of_decide_eq_true hlength⟩

/-- The document in a segment under a new id. -/
theorem document_published :
    ∃ vault after : Vault ℚ, ∃ entry, vault.db.segmentRecordsForSnapshot.length = 1 ∧
      vault.publishSegment .reference "s" = (.ok (), after) ∧ entry ∈ after.db.manifest.segments ∧
        after.Faithful .reference entry := by
  obtain ⟨vault, hreach, ⟨entries, hsync⟩, hfresh, hplain, hlength⟩ := Vault.exists_plain
  obtain ⟨hfile, hnew⟩ := hfresh "s"
  obtain ⟨⟨after, hout⟩, hseals⟩ := Vault.publishSegment_plain (A := .reference) hsync
    (by decide) hfile hnew hplain
  obtain ⟨entry, hadded, hiff⟩ :=
    (publication_faithful_iff hreach).1 ⟨"s", by decide⟩ after hnew hout
  refine ⟨vault, after, entry, hlength, hout, ?_, hiff.2 hseals⟩
  rw [hadded]
  exact List.mem_append_right _ List.mem_cons_self

end TraceDB
