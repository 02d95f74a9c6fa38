import TraceDB.Query.Scan
import TraceDB.Query.Soundness

/-!
# Policies on the read paths

A record may carry a policy in a field of its own.  `query_as` asks the visibility oracle about
every record before it ranks any.  `get_as` and `scan_as` compare the tenants and ask no oracle.

* `Policy.Denies` : what a policy says when it keeps its record from an actor.
* `reads_obey_policy_iff` : a get or a scan obeys the policies just when no record that it reads
  carries one against the actor.  The rows of a query always do; no record that has been withdrawn
  since is among them, as long as none of those is left in a segment.
* `hidden_record_read` : a hidden record, returned by a get and by a scan.
-/

namespace TraceDB

/-- What keeps a record from an actor: another tenant, a record that is hidden, an access list that
does not allow the user, or a record that is kept from retrieval. -/
def Policy.Denies (policy : Policy) (actor : ActorContext) : Prop :=
  policy.tenantId ≠ actor.tenantId ∨ policy.visibility = .hidden ∨
    (policy.visibility = .acl ∧
      ∀ entry ∈ policy.acl, entry.allow = true → entry.userId ≠ actor.userId) ∨
    policy.suppressFromAi = true

variable {S : Type} (Q : QueryFormat S) (index : IndexFiles S)

/-- The record carries a policy against the actor, or it carries none and belongs to another
tenant. -/
def StoredRecord.Denies (record : StoredRecord) (actor : ActorContext) : Prop :=
  match record.fields[policyFieldName]?.bind Q.policyFromValue with
  | none => record.header.tenantId ≠ actor.tenantId
  | some policy => policy.Denies actor

/-- The visibility oracle on what was returned. -/
def oracleAllows (actor : ActorContext) (fields : Fields) (tenantId : String) : Bool :=
  (policyFromFields Q fields tenantId).visible actor

/-! ### What the read paths promise -/

/-- A get returns no record that the oracle hides. -/
def GetObeys (db : Db) (actor : ActorContext) (table tenantId id : String) : Prop :=
  ∀ output, db.getAs actor table tenantId id = .ok (some output) →
    oracleAllows Q actor output.fields output.tenantId = true

/-- A scan returns no record that the oracle hides. -/
def ScanObeys (db : Db) (env : CursorEnv) (actor : ActorContext) (request : RecordScanRequest) :
    Prop :=
  ∀ output, db.scanAs Q.toCursorFormat env actor request = .ok output →
    ∀ record ∈ output.records, oracleAllows Q actor record.fields record.tenantId = true

/-- The rows of a query are such that the oracle allows them. -/
def RowsObey (db : Db) (env : CursorEnv) (cache : LexicalCorpusCache S) (actor : ActorContext)
    (query : HybridQuery S) : Prop :=
  ∀ output cache', db.queryAs Q index env cache actor query = (.ok output, cache') →
    ∀ row ∈ output.results, oracleAllows Q actor row.fields row.tenantId = true

/-- No row of a query is of a record that the oracle hides at the read epoch. -/
def RecordsObey (db : Db) (env : CursorEnv) (cache : LexicalCorpusCache S) (actor : ActorContext)
    (query : HybridQuery S) : Prop :=
  ∀ output cache', db.queryAs Q index env cache actor query = (.ok output, cache') →
    ∀ row ∈ output.results, ∀ cursor, db.queryCursor Q env actor query = .ok cursor → ∀ record,
      db.store.getRecord query.table query.tenantId row.recordId
        cursor.snapshotEpoch = some record →
        storedRecordVisible Q actor record = true

/-- The records that a page of a scan shows. -/
def Db.scannedPage (db : Db) (request : RecordScanRequest) (cursor : CursorState) :
    List StoredRecord :=
  (((db.scanRecords request.table request.tenantId cursor.snapshotEpoch).drop cursor.offset).take
    (min (max request.limit 1 + 1) usizeMax)).take (max request.limit 1)

/-- No segment record that a query considers is of a record that denies the actor at the read
epoch. -/
def NoneWithdrawn (db : Db) (actor : ActorContext) (query : HybridQuery S) (epoch : Epoch) : Prop :=
  ∀ sealedRecords, db.querySealed Q index query epoch actor = .ok sealedRecords →
    ∀ record ∈ sealedRecords,
      db.store.isTombstonedAt record.table record.tenantId record.recordId epoch = false →
      ∀ hot, db.store.getRecord query.table query.tenantId record.recordId epoch = some hot →
        ¬ hot.Denies Q actor

variable {Q index} {F : EngineFormat} {db : Db} {actor : ActorContext}

/-! ### The oracle -/

theorem Policy.visible_iff (policy : Policy) (actor : ActorContext) :
    policy.visible actor = true ↔ ¬ policy.Denies actor := by
  obtain ⟨tenantId, visibility, acl, suppress⟩ := policy
  rw [Policy.visible, List.isEmpty_iff, Policy.reasons, List.append_eq_nil_iff,
    List.append_eq_nil_iff]
  cases visibility with
  | tenant => cases suppress <;> simp [Policy.Denies]
  | isPublic => cases suppress <;> simp [Policy.Denies]
  | hidden => simp [Policy.Denies]
  | acl => cases suppress <;> simp [Policy.Denies]

theorem storedRecordVisible_iff (record : StoredRecord) :
    storedRecordVisible Q actor record = true ↔ ¬ record.Denies Q actor := by
  rw [storedRecordVisible, policyFromFields, StoredRecord.Denies]
  cases record.fields[policyFieldName]?.bind Q.policyFromValue with
  | none =>
    rw [Option.getD_none, Policy.visible_iff]
    simp [Policy.Denies, Policy.tenant]
  | some policy => rw [Option.getD_some, Policy.visible_iff]

theorem validateActorTenant_eq_ok {tenantId : String} :
    validateActorTenant actor tenantId = .ok () ↔ actor.tenantId = tenantId := by
  unfold validateActorTenant
  split_ifs with h
  · exact iff_of_true rfl h
  · exact iff_of_false (fun hok => by cases hok) h

/-! ### Gets and scans -/

theorem getAs_eq_some {table tenantId id : String} {output : RecordOutput} :
    db.getAs actor table tenantId id = .ok (some output) ↔
      actor.tenantId = tenantId ∧ (findTable db.manifest.schemas table).isSome = true ∧
      ∃ record, db.store.getRecord table tenantId id db.manifest.latestEpoch = some record ∧
        recordOutput record = output := by
  rw [Db.getAs, Except.bind_eq_ok_iff]
  constructor
  · rintro ⟨⟨⟩, htenant, hget⟩
    rw [Db.get, Except.bind_eq_ok_iff] at hget
    obtain ⟨schema, hschema, hget⟩ := hget
    refine ⟨validateActorTenant_eq_ok.1 htenant, ?_, Option.map_eq_some_iff.1 (Except.ok.inj hget)⟩
    rw [tableOrUnknown_eq_ok.1 hschema]
    rfl
  · rintro ⟨htenant, htable, hrecord⟩
    obtain ⟨schema, hschema⟩ := Option.isSome_iff_exists.1 htable
    refine ⟨(), validateActorTenant_eq_ok.2 htenant, ?_⟩
    rw [Db.get, Except.bind_eq_ok_iff]
    exact ⟨schema, tableOrUnknown_eq_ok.2 hschema, congrArg _ (Option.map_eq_some_iff.2 hrecord)⟩

/-- **A get obeys the policies** just when the record that it finds does not deny the actor. -/
theorem getObeys_iff {table tenantId id : String} :
    GetObeys Q db actor table tenantId id ↔
      (actor.tenantId = tenantId → (findTable db.manifest.schemas table).isSome = true →
        ∀ record, db.store.getRecord table tenantId id db.manifest.latestEpoch = some record →
          ¬ record.Denies Q actor) := by
  constructor
  · intro hobeys htenant htable record hget
    exact (storedRecordVisible_iff record).1
      (hobeys _ (getAs_eq_some.2 ⟨htenant, htable, record, hget, rfl⟩))
  · intro hnone output hget
    obtain ⟨htenant, htable, record, hrecord, rfl⟩ := getAs_eq_some.1 hget
    exact (storedRecordVisible_iff record).2 (hnone htenant htable record hrecord)

/-- The records of a successful scan. -/
theorem scanAs_records {env : CursorEnv} {request : RecordScanRequest} {output : RecordScanOutput}
    (h : db.scanAs Q.toCursorFormat env actor request = .ok output) :
    ∃ cursor, resolveCursorState Q.toCursorFormat env
        (cursorScopeForScan Q.toCursorFormat actor request (max request.limit 1)) request.cursor
        db.manifest.latestEpoch = .ok cursor ∧
      output.records = (db.scannedPage request cursor).map recordOutput := by
  simp only [Db.scanAs, Except.bind_eq_ok_iff] at h
  obtain ⟨-, -, schema, -, cursor, hcursor, h⟩ := h
  refine ⟨cursor, hcursor, ?_⟩
  rw [Db.scannedPage, List.map_take]
  split_ifs at h
  · obtain ⟨next, -, houtput⟩ := Except.bind_eq_ok_iff.1 h
    obtain rfl := Except.ok.inj houtput
    rfl
  · obtain rfl := Except.ok.inj h
    rfl

/-- **A scan obeys the policies** just when no record on its page denies the actor. -/
theorem scanObeys_iff {env : CursorEnv} {request : RecordScanRequest} :
    ScanObeys Q db env actor request ↔
      ∀ cursor, resolveCursorState Q.toCursorFormat env
        (cursorScopeForScan Q.toCursorFormat actor request (max request.limit 1)) request.cursor
        db.manifest.latestEpoch = .ok cursor →
      (∃ output, db.scanAs Q.toCursorFormat env actor request = .ok output) →
        ∀ record ∈ db.scannedPage request cursor, ¬ record.Denies Q actor := by
  constructor
  · rintro hobeys cursor hcursor ⟨output, hscan⟩ record hrecord
    obtain ⟨cursor', hcursor', hrecords⟩ := scanAs_records hscan
    obtain rfl := Except.ok.inj (hcursor.symm.trans hcursor')
    refine (storedRecordVisible_iff record).1 (hobeys output hscan (recordOutput record) ?_)
    rw [hrecords]
    exact List.mem_map_of_mem hrecord
  · intro hnone output hscan shown hshown
    obtain ⟨cursor, hcursor, hrecords⟩ := scanAs_records hscan
    rw [hrecords] at hshown
    obtain ⟨record, hrecord, rfl⟩ := List.mem_map.1 hshown
    exact (storedRecordVisible_iff record).2 (hnone cursor hcursor ⟨output, hscan⟩ record hrecord)

/-! ### Queries -/

/-- What a row of a query is made of. -/
theorem row_cases {env : CursorEnv} {cache cache' : LexicalCorpusCache S} {query : HybridQuery S}
    {output : QueryOutput S} (h : db.queryAs Q index env cache actor query = (.ok output, cache'))
    {row : QueryRow S} (hrow : row ∈ output.results) :
    ∃ cursor candidate, db.queryCursor Q env actor query = .ok cursor ∧
      ((∃ record ∈ db.queryVisible Q query cursor.snapshotEpoch actor,
          row = queryRowFromStored Q record candidate) ∨
        ∃ sealedRecords, db.querySealed Q index query cursor.snapshotEpoch actor =
          .ok sealedRecords ∧
          ∃ record ∈ sealedRecords,
            db.store.isTombstonedAt record.table record.tenantId record.recordId
              cursor.snapshotEpoch = false ∧
            row = queryRowFromSegment Q record candidate) := by
  obtain ⟨cursor, hcursor, hempty | ⟨schema, sealedRecords, scores, -, hsealed, hpage⟩⟩ :=
    queryAs_cases h
  · rw [hempty] at hrow
    cases hrow
  · obtain ⟨fused, -, hsub⟩ := sublist_queryPage hpage
    obtain ⟨candidate, -, hmaterialize⟩ := List.mem_filterMap.1 (hsub.subset hrow)
    refine ⟨cursor, candidate, hcursor, ?_⟩
    rcases materialize_cases hmaterialize with
      ⟨record, hmem, -, rfl⟩ | ⟨-, record, hmem, hlive, -, rfl⟩
    · exact .inl ⟨record, hmem, rfl⟩
    · exact .inr ⟨sealedRecords, hsealed, record, hmem, hlive, rfl⟩

theorem visible_of_mem_queryVisible {query : HybridQuery S} {epoch : Epoch} {record : StoredRecord}
    (h : record ∈ db.queryVisible Q query epoch actor) :
    record ∈ db.store.visibleRecordsAt query.table query.tenantId epoch ∧
      storedRecordVisible Q actor record = true :=
  List.mem_filter.1 (List.mem_filter.1 h).1

theorem visible_of_mem_querySealed {query : HybridQuery S} {epoch : Epoch}
    {sealedRecords : List SegmentRecord}
    (h : db.querySealed Q index query epoch actor = .ok sealedRecords) {record : SegmentRecord}
    (hrecord : record ∈ sealedRecords) : segmentRecordVisible Q actor record = true := by
  rw [Db.querySealed, Except.bind_eq_ok_iff] at h
  obtain ⟨records, -, h⟩ := h
  obtain rfl := Except.ok.inj h
  exact (List.mem_filter.1 (List.mem_filter.1 hrecord).1).2

/-- **The rows of a query obey the policies.** -/
theorem rowsObey (env : CursorEnv) (cache : LexicalCorpusCache S) (query : HybridQuery S) :
    RowsObey Q index db env cache actor query := by
  intro output cache' h row hrow
  obtain ⟨cursor, candidate, -, ⟨record, hmem, rfl⟩ | ⟨sealedRecords, hsealed, record,
      hmem, -, rfl⟩⟩ :=
    row_cases h hrow
  · exact (visible_of_mem_queryVisible hmem).2
  · exact visible_of_mem_querySealed hsealed hmem

/-- A query returns no record that was withdrawn from the actor, when no segment holds one. -/
theorem recordsObey (hkeyed : db.store.Keyed) {env : CursorEnv} {cache : LexicalCorpusCache S}
    {query : HybridQuery S}
    (hread : ∀ cursor, db.queryCursor Q env actor query = .ok cursor →
      ListsOwn db query cursor.snapshotEpoch ∧
        NoneWithdrawn Q index db actor query cursor.snapshotEpoch) :
    RecordsObey Q index db env cache actor query := by
  intro output cache' h row hrow cursor hcursor shown hshown
  obtain ⟨hown, hnone⟩ := hread cursor hcursor
  obtain ⟨cursor', candidate, hcursor', hcases⟩ := row_cases h hrow
  obtain rfl := Except.ok.inj (hcursor.symm.trans hcursor')
  rcases hcases with ⟨record, hmem, rfl⟩ | ⟨sealedRecords, hsealed, record, hmem, hlive, rfl⟩
  · -- The record that is found by table, tenant and id is the one that was listed.
    obtain ⟨hlisted, hvisible⟩ := visible_of_mem_queryVisible hmem
    obtain ⟨htable, htenant⟩ := hown record hlisted
    have hget := hkeyed.getRecord hlisted
    rw [htable, htenant] at hget
    obtain rfl := Option.some.inj (hget.symm.trans hshown)
    exact hvisible
  · exact (storedRecordVisible_iff shown).2
      (hnone sealedRecords hsealed record hmem hlive shown hshown)

/-! ### All read paths -/

/-- **Policies on every read path** of a reachable handle: gets and scans obey them just when no
record that they read denies the actor, the rows of a query always, and a query returns no record
that was withdrawn from the actor when no segment holds one. -/
theorem reads_obey_policy_iff [F.Lossless] {dir : String} (hreach : Reachable F dir db)
    (actor : ActorContext) :
    (∀ table tenantId id, GetObeys Q db actor table tenantId id ↔
      (actor.tenantId = tenantId → (findTable db.manifest.schemas table).isSome = true →
        ∀ record, db.store.getRecord table tenantId id db.manifest.latestEpoch = some record →
          ¬ record.Denies Q actor)) ∧
    (∀ env request, ScanObeys Q db env actor request ↔
      ∀ cursor, resolveCursorState Q.toCursorFormat env
        (cursorScopeForScan Q.toCursorFormat actor request (max request.limit 1)) request.cursor
        db.manifest.latestEpoch = .ok cursor →
      (∃ output, db.scanAs Q.toCursorFormat env actor request = .ok output) →
        ∀ record ∈ db.scannedPage request cursor, ¬ record.Denies Q actor) ∧
    ∀ env cache query, RowsObey Q index db env cache actor query ∧
      ((∀ cursor, db.queryCursor Q env actor query = .ok cursor →
          ListsOwn db query cursor.snapshotEpoch ∧
            NoneWithdrawn Q index db actor query cursor.snapshotEpoch) →
        RecordsObey Q index db env cache actor query) :=
  ⟨fun _ _ _ => getObeys_iff, fun _ _ => scanObeys_iff, fun env cache query =>
    ⟨rowsObey env cache query, recordsObey hreach.keyed⟩⟩

/-- A handle with a case of the tenant `t` that carries no policy. -/
def plainCaseDb : Db := casesDb [sampleCase "a" [("state", .string "open")]]

/-- A handle with a case that carries a policy. -/
def governedCaseDb (policy : Value) : Db := casesDb [sampleCase "a" [(policyFieldName, policy)]]

/-- `Policy::tenant("t")` as JSON, hidden. -/
def hiddenPolicy : Value :=
  .object [("acl", .array []), ("allow_embedding", .bool true), ("allow_training", .bool false),
    ("owner_id", .null), ("retention", .object [("legal_hold", .bool false),
    ("retain_until_epoch", .null)]), ("sensitivity", .string "normal"),
    ("suppress_from_ai", .bool false), ("tenant_id", .string "t"), ("visibility", .string "Hidden"),
    ("workspace_id", .null)]

/-- The case without a policy, read by a user of its tenant. -/
theorem reads_obey_policy_plain :
    GetObeys .reference plainCaseDb (.tenantUser "t" "u") "cases" "t" "a" ∧
      (plainCaseDb.getAs (.tenantUser "t" "u") "cases" "t" "a").toOption.join.isSome = true := by
  obtain ⟨hnone, hsome⟩ :=
    casesDb_shows [sampleCase "a" [("state", .string "open")]] (P := fun db =>
    ((db.store.getRecord "cases" "t" "a" db.manifest.latestEpoch).all fun record =>
      decide (record.fields[policyFieldName]? = none ∧ record.header.tenantId = "t")) = true ∧
    (db.getAs (.tenantUser "t" "u") "cases" "t" "a").toOption.join.isSome = true)
      (by decide +kernel)
  refine ⟨?_, hsome⟩
  have hreach : Reachable .reference "db" plainCaseDb := reachable_casesDb _
  have hiff := (@reads_obey_policy_iff _ .reference .none _ _ _ _ hreach (.tenantUser "t" "u")).1
    "cases" "t" "a"
  refine hiff.2 fun _ _ record hget => ?_
  change plainCaseDb.store.getRecord _ _ _ _ = _ at hget
  rw [show casesDb _ = plainCaseDb from rfl, hget] at hnone
  obtain ⟨hpolicy, htenant⟩ := of_decide_eq_true hnone
  rw [StoredRecord.Denies, hpolicy]
  exact not_not.2 htenant

/-- **A hidden record**, returned to the user it is hidden from. -/
theorem hidden_record_read :
    Reachable .reference "db" (governedCaseDb hiddenPolicy) ∧
      ¬ GetObeys .reference (governedCaseDb hiddenPolicy) (.tenantUser "t" "u") "cases" "t" "a" ∧
      ¬ ScanObeys .reference (governedCaseDb hiddenPolicy) .unsigned (.tenantUser "t" "u")
        ⟨"cases", "t", 10, none⟩ := by
  obtain ⟨hget, hscan⟩ := casesDb_shows [sampleCase "a" [(policyFieldName, hiddenPolicy)]]
    (P := fun db =>
      ((db.getAs (.tenantUser "t" "u") "cases" "t" "a").toOption.join.any fun output =>
        !oracleAllows .reference (.tenantUser "t" "u") output.fields output.tenantId) = true ∧
      ((db.scanAs .reference .unsigned (.tenantUser "t" "u") ⟨"cases", "t", 10, none⟩).toOption.any
        fun output => output.records.any fun record =>
          !oracleAllows .reference (.tenantUser "t" "u") record.fields record.tenantId) = true)
    (by decide +kernel)
  refine ⟨reachable_casesDb _, fun hobeys => ?_, fun hobeys => ?_⟩
  · obtain ⟨output, hok, hdenied⟩ := (Option.any_eq_true _ _).1 hget
    have hallowed := hobeys output (Except.eq_ok_of_toOption (Option.join_eq_some_iff.1 hok))
    rw [hallowed] at hdenied
    cases hdenied
  · obtain ⟨output, hok, hdenied⟩ := (Option.any_eq_true _ _).1 hscan
    obtain ⟨record, hrecord, hdenied⟩ := List.any_eq_true.1 hdenied
    have hallowed := hobeys output (Except.eq_ok_of_toOption hok) record hrecord
    rw [hallowed] at hdenied
    cases hdenied

end TraceDB
