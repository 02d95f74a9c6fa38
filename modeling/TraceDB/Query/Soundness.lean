import TraceDB.Engine.Keys
import TraceDB.Query.Rows
import TraceDB.Query.Samples

/-!
# What a query returns

The rows of a query come from the hot store and from published segments.  A segment keeps the
version of a record that was current when it was published.  The row of a record comes from the
segment when the hot version does not pass the policy and the scalar conditions of the query.

* `query_sound` : as long as every segment record that a query considers has a hot version that the
  query considers too, each row is the version that the store shows at the read epoch.
* `stale_segment_row` : without that, a query returns versions that were replaced.
-/

namespace TraceDB

variable {F : EngineFormat} {S : Type} {Q : QueryFormat S} {index : IndexFiles S} {db : Db}

/-! ### Soundness -/

/-- A row that is the version the store shows to the actor at an epoch, and that satisfies the
conditions of the query. -/
structure SoundRow (Q : QueryFormat S) (db : Db) (actor : ActorContext) (query : HybridQuery S)
    (epoch : Epoch) (row : QueryRow S) : Prop where
  shown : ∃ record, db.store.getRecord query.table query.tenantId row.recordId epoch = some record ∧
    row.versionId = record.header.versionId ∧ row.tenantId = record.header.tenantId ∧
    row.fields = record.fields ∧ storedRecordVisible Q actor record = true
  conditions : recordMatchesScalarEq row.fields query.scalarEq = true

/-- Every record that a scan lists for the query's table and tenant belongs to them.  Only a NUL in
a tenant or in a record id can bring in others. -/
def ListsOwn (db : Db) (query : HybridQuery S) (epoch : Epoch) : Prop :=
  ∀ record ∈ db.store.visibleRecordsAt query.table query.tenantId epoch,
    record.header.tableId = query.table ∧ record.header.tenantId = query.tenantId

/-- Every segment record that the query considers, and that is not deleted, has a hot version that
the query considers. -/
def HotCovers (Q : QueryFormat S) (index : IndexFiles S) (db : Db) (actor : ActorContext)
    (query : HybridQuery S) (epoch : Epoch) : Prop :=
  ∀ sealedRecords, db.querySealed Q index query epoch actor = .ok sealedRecords →
    ∀ record ∈ sealedRecords,
      db.store.isTombstonedAt record.table record.tenantId record.recordId epoch = false →
      ∃ hot ∈ db.queryVisible Q query epoch actor, hot.header.recordId = record.recordId

/-- A hot row is sound. -/
theorem soundRow_stored (hkeyed : db.store.Keyed) {actor : ActorContext} {query : HybridQuery S}
    {epoch : Epoch} (hown : ListsOwn db query epoch) {record : StoredRecord}
    (hmem : record ∈ db.queryVisible Q query epoch actor) (candidate : FusedCandidate S) :
    SoundRow Q db actor query epoch (queryRowFromStored Q record candidate) := by
  obtain ⟨hvisible, hscalar⟩ := List.mem_filter.1 hmem
  obtain ⟨hlisted, hpolicy⟩ := List.mem_filter.1 hvisible
  obtain ⟨htable, htenant⟩ := hown record hlisted
  have hget := hkeyed.getRecord hlisted
  rw [htable, htenant] at hget
  exact ⟨⟨record, hget, rfl, rfl, rfl, hpolicy⟩, hscalar⟩

/-- **Queries are sound where the hot store covers the segments.**  On every reachable handle, for
every actor and query, whatever queries ran before: each row is the version that the store shows at
the read epoch for the table, the tenant and the id of the row, the policy lets the actor see it,
and it satisfies the scalar conditions; and no id comes twice. -/
theorem query_sound [F.Lossless] {dir : String} (hreach : Reachable F dir db) {env : CursorEnv}
    {cache cache' : LexicalCorpusCache S} {actor : ActorContext} {query : HybridQuery S}
    {cursor : CursorState} (hcursor : db.queryCursor Q env actor query = .ok cursor)
    (hown : ListsOwn db query cursor.snapshotEpoch)
    (hcovers : HotCovers Q index db actor query cursor.snapshotEpoch) {output : QueryOutput S}
    (hquery : db.queryAs Q index env cache actor query = (.ok output, cache')) :
    (∀ row ∈ output.results, SoundRow Q db actor query cursor.snapshotEpoch row) ∧
      (output.results.map (·.recordId)).Nodup := by
  obtain ⟨cursor', hcursor', hcases⟩ := queryAs_cases hquery
  obtain rfl := Except.ok.inj (hcursor.symm.trans hcursor')
  rcases hcases with hempty | ⟨schema, sealedRecords, scores, -, hsealed, hpage⟩
  · simp [hempty]
  · obtain ⟨fused, hnodup, hsub⟩ := sublist_queryPage hpage
    refine ⟨fun row hrow => ?_, (nodup_materialize hnodup).sublist (hsub.map _)⟩
    obtain ⟨candidate, -, hmaterialize⟩ := List.mem_filterMap.1 (hsub.subset hrow)
    rcases materialize_cases hmaterialize with
      ⟨record, hmem, -, rfl⟩ | ⟨hnone, record, hmem, hlive, hid, -⟩
    · exact soundRow_stored hreach.keyed hown hmem candidate
    · -- A row from a segment has a hot version, so it does not come from the segment.
      obtain ⟨hot, hhot, hsame⟩ := hcovers sealedRecords hsealed record hmem hlive
      exact absurd (hsame.trans hid) (hnone hot hhot)

/-! ### A row from a segment -/

/-- A case that was open when it was published, and was closed then. -/
def closedCaseDb : Db :=
  publishedDb [sampleCase "a" [("state", .string "open"), ("body", .string "x")]]
    [.put (sampleCase "a" [("state", .string "closed"), ("body", .string "x")]) none]

/-- An open case that was not published. -/
def openCaseDb : Db := casesDb [sampleCase "a" [("state", .string "open"), ("body", .string "x")]]

/-- A query for open cases. -/
def openCasesQuery : HybridQuery ℚ :=
  { casesQuery with text := some "x", scalarEq := (∅ : Fields).insert "state" (.string "open") }

/-- The versions that a query returns. -/
def Db.queriedVersions (db : Db) (query : HybridQuery ℚ) : Option (List (String × ℕ)) :=
  (db.queryAs .reference .none .unsigned .empty (.tenantUser "t" "u") query).1.toOption.map
    fun output => output.results.map fun row => (row.recordId, row.versionId)

/-- The epoch at which a query reads. -/
def Db.queriedEpoch (db : Db) (query : HybridQuery ℚ) : Option Epoch :=
  (db.queryCursor .reference .unsigned (.tenantUser "t" "u") query).toOption.map (·.snapshotEpoch)

theorem exists_of_queriedVersions {db : Db} {query : HybridQuery ℚ} {versions : List (String × ℕ)}
    (h : db.queriedVersions query = some versions) :
    ∃ output cache', db.queryAs .reference .none .unsigned .empty (.tenantUser "t" "u") query =
        (.ok output, cache') ∧
      (output.results.map fun row => (row.recordId, row.versionId)) = versions := by
  obtain ⟨output, hok, hversions⟩ := Option.map_eq_some_iff.1 h
  refine ⟨output, _, Prod.ext ?_ rfl, hversions⟩
  exact Except.eq_ok_of_toOption hok

theorem exists_of_queriedEpoch {db : Db} {query : HybridQuery ℚ} {epoch : Epoch}
    (h : db.queriedEpoch query = some epoch) :
    ∃ cursor, db.queryCursor .reference .unsigned (.tenantUser "t" "u") query = .ok cursor ∧
      cursor.snapshotEpoch = epoch := by
  obtain ⟨cursor, hok, hepoch⟩ := Option.map_eq_some_iff.1 h
  exact ⟨cursor, Except.eq_ok_of_toOption hok, hepoch⟩

/-- Whether the hot store covers what a query finds in the segments. -/
def hotCovers (db : Db) (query : HybridQuery ℚ) (epoch : Epoch) : Bool :=
  (db.querySealed .reference .none query epoch (.tenantUser "t" "u")).toOption.all fun records =>
    records.all fun record =>
      (db.queryVisible .reference query epoch (.tenantUser "t" "u")).any fun hot =>
        decide (hot.header.recordId = record.recordId)

/-- Whether a scan lists only the records of the query's table and tenant. -/
def listsOwn (db : Db) (query : HybridQuery ℚ) (epoch : Epoch) : Bool :=
  (db.store.visibleRecordsAt query.table query.tenantId epoch).all fun record =>
    decide (record.header.tableId = query.table ∧ record.header.tenantId = query.tenantId)

theorem query_sound_open :
    ∃ output cache', openCaseDb.queryAs .reference .none .unsigned .empty (.tenantUser "t" "u")
        openCasesQuery = (.ok output, cache') ∧
      (output.results.map fun row => (row.recordId, row.versionId)) = [("a", 2)] ∧
      (∀ row ∈ output.results,
        SoundRow .reference openCaseDb (.tenantUser "t" "u") openCasesQuery 2 row) ∧
      (output.results.map (·.recordId)).Nodup := by
  obtain ⟨hversions, hepoch, howns, hcovers⟩ := casesDb_shows
    [sampleCase "a" [("state", .string "open"), ("body", .string "x")]] (P := fun db =>
    db.queriedVersions openCasesQuery = some [("a", 2)] ∧ db.queriedEpoch openCasesQuery = some 2 ∧
      listsOwn db openCasesQuery 2 = true ∧ hotCovers db openCasesQuery 2 = true)
    (by decide +kernel)
  obtain ⟨output, cache', hquery, hrows⟩ := exists_of_queriedVersions hversions
  obtain ⟨cursor, hcursor, hread⟩ := exists_of_queriedEpoch hepoch
  have hown : ListsOwn openCaseDb openCasesQuery 2 := fun record hrecord =>
    of_decide_eq_true (List.all_eq_true.1 howns record hrecord)
  have hcover : HotCovers .reference .none openCaseDb (.tenantUser "t" "u") openCasesQuery 2 := by
    intro records hrecords record hmem _
    change hotCovers openCaseDb openCasesQuery 2 = true at hcovers
    rw [hotCovers, hrecords] at hcovers
    obtain ⟨hot, hhot, hsame⟩ := List.any_eq_true.1 (List.all_eq_true.1 hcovers record hmem)
    exact ⟨hot, hhot, of_decide_eq_true hsame⟩
  obtain ⟨hsound, hnodup⟩ := query_sound (reachable_casesDb _) hcursor (hread.symm ▸ hown)
    (hread.symm ▸ hcover) hquery
  exact ⟨output, cache', hquery, hrows, hread ▸ hsound, hnodup⟩

/-- **A stale row**: the case is closed at the read epoch, and a query for open cases returns the
version that was published. -/
theorem stale_segment_row :
    Reachable .reference "db" closedCaseDb ∧
      ∃ output cache', closedCaseDb.queryAs .reference .none .unsigned .empty
          (.tenantUser "t" "u") openCasesQuery = (.ok output, cache') ∧
        closedCaseDb.queriedEpoch openCasesQuery = some 3 ∧
        ∃ row ∈ output.results, ¬ SoundRow .reference closedCaseDb
          (.tenantUser "t" "u") openCasesQuery 3 row := by
  obtain ⟨hversions, hepoch, hshown⟩ := publishedDb_shows
    [sampleCase "a" [("state", .string "open"), ("body", .string "x")]]
    [.put (sampleCase "a" [("state", .string "closed"), ("body", .string "x")]) none]
      (P := fun db =>
    db.queriedVersions openCasesQuery = some [("a", 2)] ∧ db.queriedEpoch openCasesQuery = some 3 ∧
      (db.store.getRecord "cases" "t" "a" 3).map (·.header.versionId) = some 3)
    (by decide +kernel)
  obtain ⟨output, cache', hquery, hrows⟩ := exists_of_queriedVersions hversions
  obtain ⟨row, hrow, hpair⟩ := List.mem_map.1 (hrows.symm ▸ List.mem_singleton_self ("a", 2))
  obtain ⟨hid, hversion⟩ := Prod.mk.inj hpair
  refine ⟨reachable_publishedDb _ _, output, cache', hquery, hepoch, row, hrow, ?_⟩
  rintro ⟨⟨record, hget, hsame, -⟩, -⟩
  rw [hid] at hget
  have hthree : some record.header.versionId = some 3 := (congrArg _ hget).symm.trans hshown
  rw [← hsame, hversion] at hthree
  cases hthree

end TraceDB
