import TraceDB.Data.Pages
import TraceDB.Engine.History
import TraceDB.Query.Reference

/-!
# Reads of an actor

`get_as` and `scan_as` (`tracedb-query`) check that the actor belongs to the tenant that is read.  A
scan is paged: its cursor carries the epoch of the first page, and every page is cut from the
records visible at that epoch.

A record is found by the prefix of its key, `table NUL tenant NUL`, which keys of other tenants can
begin with as well.

* `followPages_scanPage` : whatever calls run on the handle between the pages, following the cursors
  lists what the prefix finds at the epoch of the first page.
* `scan_pages_exact_iff` : these are the visible records of the table and the tenant, by id, each
  once, just when the prefix finds no others.
* `scan_lists_foreign` : a tenant whose name continues the other's with a NUL.
-/

namespace TraceDB

/-- `validate_actor_tenant`. -/
def validateActorTenant (actor : ActorContext) (tenantId : String) : Result Unit :=
  if actor.tenantId = tenantId then .ok ()
  else .error (.invalidCommand s!"actor tenant {actor.tenantId} cannot query tenant {tenantId}")

/-- The JSON of `cursor_scope_for_scan`, with its entries in the order of `serde_json::Map`. -/
def cursorScanValue (request : RecordScanRequest) : Value :=
  .object [("kind", .string "scan"), ("order", .string "record_id_asc"),
    ("table", .string request.table), ("tenant_id", .string request.tenantId)]

/-- `cursor_scope_for_scan`. -/
def cursorScopeForScan (C : CursorFormat) (actor : ActorContext) (request : RecordScanRequest)
    (limit : ℕ) : CursorScope where
  kind := "scan"
  tenantId := request.tenantId
  databaseId := actor.databaseId
  branchId := actor.branchId
  actorDigest := cursorActorDigest C actor
  queryDigest := C.stableBodyHash (utf8 (C.jsonToString (cursorScanValue request)))
  limit := limit
  orderKey := "record_id_asc"

namespace Db

variable (db : Db)

/-- `get_as`. -/
def getAs (actor : ActorContext) (table tenantId id : String) : Result (Option RecordOutput) := do
  validateActorTenant actor tenantId
  db.get table tenantId id

/-- The records of a scan at an epoch: `visible_records_at`, sorted by id. -/
def scanRecords (table tenantId : String) (epoch : Epoch) : List StoredRecord :=
  (db.store.visibleRecordsAt table tenantId epoch).mergeSort fun left right =>
    decide (left.header.recordId ≤ right.header.recordId)

/-- `scan_as`. -/
def scanAs (C : CursorFormat) (env : CursorEnv) (actor : ActorContext)
    (request : RecordScanRequest) : Result RecordScanOutput := do
  validateActorTenant actor request.tenantId
  let _ ← tableOrUnknown db.manifest.schemas request.table
  let limit := max request.limit 1
  let scope := cursorScopeForScan C actor request limit
  let cursor ← resolveCursorState C env scope request.cursor db.manifest.latestEpoch
  let records := db.scanRecords request.table request.tenantId cursor.snapshotEpoch
  let page := ((records.drop cursor.offset).take (min (limit + 1) usizeMax)).map recordOutput
  let records := page.take limit
  let nextCursor ← if limit < page.length then
      some <$> encodeNextCursor C env scope (cursor.offset + records.length) cursor.snapshotEpoch
    else .ok none
  .ok ⟨records, nextCursor, records.length⟩

end Db

/-! ### What a scan lists -/

variable {F : EngineFormat} {C : CursorFormat}

theorem SeenAlike.recordOutput {touched : String → Prop} {r r' : StoredRecord}
    (h : SeenAlike touched r r') : TraceDB.recordOutput r' = TraceDB.recordOutput r := by
  have hheader := h.header
  unfold TraceDB.recordOutput
  rw [h.fields, ← hheader]

/-- Two stores that are seen alike at an epoch list the same records in their scans. -/
theorem visibleRecordsAt_map_congr {store store' : RecordStore} {e : Epoch}
    (h : ∀ key, SeenRel (fun _ => True) (store.seenAt key e) (store'.seenAt key e))
    (table tenantId : String) :
    (store'.visibleRecordsAt table tenantId e).map recordOutput =
      (store.visibleRecordsAt table tenantId e).map recordOutput := by
  have hlists := (RecordStore.forall₂_visibleRecordsAt h table tenantId).imp
    fun r r' ⟨_, _, _, halike⟩ => halike.recordOutput.symm
  exact (List.forall₂_eq_eq_eq ▸ List.forall₂_map_left_iff.2
    (List.forall₂_map_right_iff.2 hlists)).symm

/-- The outputs of a scan: those of the visible records, sorted by id. -/
theorem scanRecords_map (db : Db) (table tenantId : String) (epoch : Epoch) :
    (db.scanRecords table tenantId epoch).map recordOutput =
      ((db.store.visibleRecordsAt table tenantId epoch).map recordOutput).mergeSort
        fun left right => decide (left.id ≤ right.id) :=
  List.map_mergeSort fun _ _ _ _ => rfl

theorem pairwise_scanRecords (db : Db) (table tenantId : String) (epoch : Epoch) :
    ((db.scanRecords table tenantId epoch).map recordOutput).Pairwise fun a b => a.id ≤ b.id := by
  rw [scanRecords_map]
  refine (List.pairwise_mergeSort ?_ ?_ _).imp of_decide_eq_true
  · exact fun a b c hab hbc => decide_eq_true
      ((of_decide_eq_true hab).trans (of_decide_eq_true hbc))
  · intro a b
    rw [Bool.or_eq_true, decide_eq_true_iff, decide_eq_true_iff]
    exact le_total a.id b.id

/-- Calls on the handle do not change what a scan lists at an epoch that has passed. -/
theorem KeepsPast.scanRecords {db db' : Db} (h : KeepsPast db db') {e : Epoch}
    (he : e ≤ db.manifest.latestEpoch) (table tenantId : String) :
    (db'.scanRecords table tenantId e).map recordOutput =
      (db.scanRecords table tenantId e).map recordOutput := by
  rw [scanRecords_map, scanRecords_map, visibleRecordsAt_map_congr (h.seen e he)]

/-- Under a key of a handle the visible version carries the key. -/
theorem key_of_seenAt {store : RecordStore} {epoch : Epoch} (h : SameTips epoch store store)
    {key : String} {record : StoredRecord} (hseen : store.seenAt key epoch = some record) :
    record.key = key := by
  rcases h.none_or_some key with ⟨hnone, -⟩ | ⟨versions, _, hsome, -, tip, htip, -, hkey⟩
  · rw [RecordStore.seenAt, hnone] at hseen
    cases hseen
  · rw [RecordStore.seenAt, hsome, Option.bind_some, htip.visibleRecordAt] at hseen
    split_ifs at hseen
    obtain rfl := Option.some.inj hseen
    exact hkey

/-- A scan at the latest epoch lists no record twice. -/
theorem nodup_keys_visibleRecordsAt {store : RecordStore} {epoch : Epoch}
    (h : SameTips epoch store store) (table tenantId : String) :
    ((store.visibleRecordsAt table tenantId epoch).map StoredRecord.key).Nodup := by
  rw [RecordStore.visibleRecordsAt_eq, SortedMap.filterMap_eq_selected, List.map_map]
  have hkeys : ((SortedMap.selected store.versions (RecordStore.scanned table tenantId epoch)).map
      (StoredRecord.key ∘ Prod.snd)) =
      (SortedMap.selected store.versions (RecordStore.scanned table tenantId epoch)).map
        Prod.fst := by
    refine List.map_congr_left fun entry hentry => ?_
    have hselected := SortedMap.mem_selected.1 hentry
    rw [RecordStore.bind_scanned] at hselected
    split_ifs at hselected
    exact key_of_seenAt h hselected
  rw [hkeys, List.nodup_iff_pairwise_ne, List.pairwise_map]
  exact (SortedMap.sorted_selected _ _).imp fun hlt => hlt.ne

/-! ### Pages -/

section Pages

variable {db : Db} {env : CursorEnv} {actor : ActorContext} {request : RecordScanRequest}
  {offset : ℕ} {e : Epoch} {items : List RecordOutput}

/-- What `scan_as` computes for a cursor that stands for an offset and an epoch. -/
theorem scanAs_eq (htenant : validateActorTenant actor request.tenantId = .ok ())
    (htable : (findTable db.manifest.schemas request.table).isSome = true)
    (hcursor : resolveCursorState C env (cursorScopeForScan C actor request (max request.limit 1))
      request.cursor db.manifest.latestEpoch = .ok ⟨offset, e⟩)
    (hitems : (db.scanRecords request.table request.tenantId e).map recordOutput = items) :
    db.scanAs C env actor request = (do
      let page := (items.drop offset).take (min (max request.limit 1 + 1) usizeMax)
      let nextCursor ← if max request.limit 1 < page.length then
          some <$> encodeNextCursor C env (cursorScopeForScan C actor request (max request.limit 1))
            (offset + (page.take (max request.limit 1)).length) e
        else .ok none
      .ok ⟨page.take (max request.limit 1), nextCursor,
        (page.take (max request.limit 1)).length⟩) := by
  obtain ⟨schema, hschema⟩ := Option.isSome_iff_exists.1 htable
  have hfound : tableOrUnknown db.manifest.schemas request.table = .ok schema := by
    rw [tableOrUnknown, hschema]
  simp only [Db.scanAs, htenant, hfound, hcursor, Except.ok_bind, List.map_take, List.map_drop,
    hitems]

variable (request) in
/-- A page that is not the last one. -/
theorem scanAs_more (htenant : validateActorTenant actor request.tenantId = .ok ())
    (htable : (findTable db.manifest.schemas request.table).isSome = true)
    (hcursor : resolveCursorState C env (cursorScopeForScan C actor request (max request.limit 1))
      request.cursor db.manifest.latestEpoch = .ok ⟨offset, e⟩)
    (hitems : (db.scanRecords request.table request.tenantId e).map recordOutput = items)
    (hlength : items.length ≤ usizeMax) (hmore : offset + max request.limit 1 < items.length)
    {token : String}
    (htoken : encodeNextCursor C env (cursorScopeForScan C actor request (max request.limit 1))
      (offset + max request.limit 1) e = .ok token) :
    ∃ count, db.scanAs C env actor request =
      .ok ⟨(items.drop offset).take (max request.limit 1), some token, count⟩ := by
  rw [scanAs_eq htenant htable hcursor hitems]
  generalize max request.limit 1 = limit at *
  have hmin : min (limit + 1) usizeMax = limit + 1 := by omega
  have hpage : ((items.drop offset).take (limit + 1)).length = limit + 1 := by
    rw [List.length_take, List.length_drop]
    omega
  have htake : ((items.drop offset).take (limit + 1)).take limit =
      (items.drop offset).take limit := by
    rw [List.take_take]
    congr 1
    omega
  have hcount : ((items.drop offset).take limit).length = limit := by
    rw [List.length_take, List.length_drop]
    omega
  simp only [hmin, hpage, htake, hcount, Nat.lt_succ_self, if_true, htoken]
  exact ⟨_, rfl⟩

variable (request) in
/-- The last page. -/
theorem scanAs_last (htenant : validateActorTenant actor request.tenantId = .ok ())
    (htable : (findTable db.manifest.schemas request.table).isSome = true)
    (hcursor : resolveCursorState C env (cursorScopeForScan C actor request (max request.limit 1))
      request.cursor db.manifest.latestEpoch = .ok ⟨offset, e⟩)
    (hitems : (db.scanRecords request.table request.tenantId e).map recordOutput = items)
    (hlength : items.length ≤ usizeMax) (hlast : items.length ≤ offset + max request.limit 1) :
    ∃ count, db.scanAs C env actor request = .ok ⟨items.drop offset, none, count⟩ := by
  rw [scanAs_eq htenant htable hcursor hitems]
  generalize max request.limit 1 = limit at *
  have hrest : (items.drop offset).length ≤ limit := by
    rw [List.length_drop]
    omega
  have hpage : (items.drop offset).take (min (limit + 1) usizeMax) = items.drop offset := by
    refine List.take_of_length_le ?_
    rw [List.length_drop] at hrest ⊢
    omega
  simp only [hpage, List.take_of_length_le hrest, not_lt.2 hrest, if_false, Except.ok_bind]
  exact ⟨_, rfl⟩

variable (request) in
/-- The first page succeeds for the actor's own tenant and a known table. -/
theorem scanAs_first {key : Bytes} (hkey : env.signingKey = .ok (some key))
    (htenant : validateActorTenant actor request.tenantId = .ok ())
    (htable : (findTable db.manifest.schemas request.table).isSome = true)
    (hcursor : request.cursor = none)
    (hlength : ((db.scanRecords request.table request.tenantId db.manifest.latestEpoch).map
      recordOutput).length ≤ usizeMax) : ∃ first, db.scanAs C env actor request = .ok first := by
  have hstart : resolveCursorState C env (cursorScopeForScan C actor request (max request.limit 1))
      request.cursor db.manifest.latestEpoch = .ok ⟨0, db.manifest.latestEpoch⟩ := by
    rw [hcursor]
    rfl
  by_cases hmore : 0 + max request.limit 1 <
      ((db.scanRecords request.table request.tenantId db.manifest.latestEpoch).map
        recordOutput).length
  · obtain ⟨count, hpage⟩ := scanAs_more request htenant htable hstart rfl hlength hmore
      (encodeNextCursor_of_key hkey _ _ _)
    exact ⟨_, hpage⟩
  · obtain ⟨count, hpage⟩ := scanAs_last request htenant htable hstart rfl hlength (not_lt.1 hmore)
    exact ⟨_, hpage⟩

end Pages

/-- The handle at each page: other calls run after every page. -/
def Db.handleAt (F : EngineFormat) (db : Db) (between : ℕ → List HandleCall) : ℕ → Db
  | 0 => db
  | index + 1 => (Db.handleAt F db between index).afterCalls F (between index)

theorem Reachable.keepsPast_handleAt [F.Lossless] {dir : String} {db : Db} (h : Reachable F dir db)
    (between : ℕ → List HandleCall) (index : ℕ) :
    Reachable F dir (db.handleAt F between index) ∧ KeepsPast db (db.handleAt F between index) := by
  induction index with
  | zero => exact ⟨h, .refl db⟩
  | succ index ih =>
    obtain ⟨hreach, hpast⟩ := ih
    obtain ⟨hnext, hcalls⟩ := hreach.keepsPast_calls (between index)
    exact ⟨hnext, hpast.trans hcalls⟩

/-- The environments of the pages: the signing key is configured and stays, and every cursor is used
before it expires. -/
structure Unexpired (envs : ℕ → CursorEnv) (key : Bytes) : Prop where
  signingKey : ∀ index, (envs index).signingKey = .ok (some key)
  inTime : ∀ index, (envs (index + 1)).nowSecs ≤
    saturatingAddU64 (envs index).nowSecs (envs index).ttlSecs

/-- The page with a number: `scan_as` on the handle as it is then. -/
def Db.scanPage (F : EngineFormat) (C : CursorFormat) (db : Db) (between : ℕ → List HandleCall)
    (envs : ℕ → CursorEnv) (actor : ActorContext) (request : RecordScanRequest) (index : ℕ)
    (cursor : Option String) : Result (List RecordOutput × Option String) :=
  ((db.handleAt F between index).scanAs C (envs index) actor { request with cursor := cursor }).map
    fun output => (output.records, output.nextCursor)

/-- Enough pages give one list. -/
theorem followPages_unique {ε κ α : Type} {fetch : ℕ → Option κ → Except ε (List α × Option κ)}
    {items items' : List α}
    (h : ∀ fuel, items.length < fuel → followPages fetch fuel 0 none = some (.ok items))
    (h' : ∀ fuel, items'.length < fuel → followPages fetch fuel 0 none = some (.ok items')) :
    items = items' := by
  have hboth := (h (items.length + items'.length + 1) (by omega)).symm.trans (h' _ (by omega))
  exact Except.ok.inj (Option.some.inj hboth)

/-- **Scans list what the prefix finds.**  On every reachable handle, when the first page of a scan
succeeds: whatever calls run on the handle between the pages, following the cursors ends, and the
pages together are the records that the scan lists at the epoch of the first page. -/
theorem followPages_scanPage [F.Lossless] {dir : String} {db : Db} (hreach : Reachable F dir db)
    {actor : ActorContext} (request : RecordScanRequest) {envs : ℕ → CursorEnv} {key : Bytes}
    (henvs : Unexpired envs key) (between : ℕ → List HandleCall) {first : RecordScanOutput}
    (hfirst : db.scanAs C (envs 0) actor { request with cursor := none } = .ok first)
    (hsize : (db.store.visibleRecordsAt request.table request.tenantId
      db.manifest.latestEpoch).length ≤ usizeMax) (fuel : ℕ)
    (hfuel : ((db.scanRecords request.table request.tenantId db.manifest.latestEpoch).map
      recordOutput).length < fuel) :
    followPages (db.scanPage F C between envs actor request) fuel 0 none =
      some (.ok ((db.scanRecords request.table request.tenantId db.manifest.latestEpoch).map
        recordOutput)) := by
  -- The list that all pages are cut from.
  have hitems : ((db.scanRecords request.table request.tenantId db.manifest.latestEpoch).map
      recordOutput).length ≤ usizeMax := by
    rwa [List.length_map, Db.scanRecords, List.length_mergeSort]
  simp only [Db.scanAs, Except.bind_eq_ok_iff] at hfirst
  obtain ⟨_, htenant, schema, htable, -⟩ := hfirst
  have hpager : Pager (db.scanPage F C between envs actor request)
      ((db.scanRecords request.table request.tenantId db.manifest.latestEpoch).map recordOutput)
      (max request.limit 1) fun index offset cursor =>
        resolveCursorState C (envs index)
          (cursorScopeForScan C actor { request with cursor := cursor } (max request.limit 1))
          cursor
          (db.handleAt F between index).manifest.latestEpoch =
        .ok ⟨offset, db.manifest.latestEpoch⟩ := by
    have hpast := fun index => (hreach.keepsPast_handleAt between index).2
    have htables := fun index => (hpast index).tables request.table (by
      rw [tableOrUnknown] at htable
      cases hfind : findTable db.manifest.schemas request.table with
      | none =>
        rw [hfind] at htable
        cases htable
      | some schema => rfl)
    have hlists := fun index => (hpast index).scanRecords le_rfl request.table request.tenantId
    constructor
    · intro index offset cursor hcursor hmore
      obtain ⟨token, htoken, hnext⟩ := resolve_encodeNextCursor (C := C) (henvs.signingKey index)
        (henvs.signingKey (index + 1)) (henvs.inTime index)
        (cursorScopeForScan C actor { request with cursor := cursor } (max request.limit 1))
        (offset + max request.limit 1) db.manifest.latestEpoch
        (db.handleAt F between (index + 1)).manifest.latestEpoch
      obtain ⟨count, hpage⟩ := scanAs_more { request with cursor := cursor } htenant
        (htables index) hcursor (hlists index) hitems hmore htoken
      exact ⟨token, by rw [Db.scanPage, hpage]; rfl, hnext⟩
    · intro index offset cursor hcursor hlast
      obtain ⟨count, hpage⟩ := scanAs_last { request with cursor := cursor } htenant
        (htables index) hcursor (hlists index) hitems hlast
      rw [Db.scanPage, hpage]
      rfl
  have hstart : resolveCursorState C (envs 0) (cursorScopeForScan C actor
      { request with cursor := none } (max request.limit 1)) none
      (db.handleAt F between 0).manifest.latestEpoch = .ok ⟨0, db.manifest.latestEpoch⟩ := rfl
  exact hpager.follow (lt_max_of_lt_right Nat.one_pos) hstart
    (by rwa [Nat.zero_add]) (Nat.zero_le _)

/-! ### What a scan is asked for -/

/-- The outputs are those of the records of a table and a tenant that are visible at an epoch, in
the order of their ids, each once. -/
structure ListsVisible (store : RecordStore) (table tenantId : String) (epoch : Epoch)
    (items : List RecordOutput) : Prop where
  exactly : ∀ output, output ∈ items ↔ ∃ key record, store.seenAt key epoch = some record ∧
    record.header.tableId = table ∧ record.header.tenantId = tenantId ∧ recordOutput record = output
  ascending : items.Pairwise fun a b => a.id < b.id

/-- What is visible under the keys that begin with the prefix of a table and a tenant is theirs. -/
def PrefixOwn (store : RecordStore) (table tenantId : String) (epoch : Epoch) : Prop :=
  ∀ key record, (recordKeyPrefix table tenantId).toList <+: key.toList →
    store.seenAt key epoch = some record →
      record.header.tableId = table ∧ record.header.tenantId = tenantId

theorem mem_scanRecords {db : Db} {table tenantId : String} {epoch : Epoch}
    {record : StoredRecord} :
    record ∈ db.scanRecords table tenantId epoch ↔
      ∃ key, (recordKeyPrefix table tenantId).toList <+: key.toList ∧
        db.store.seenAt key epoch = some record := by
  rw [Db.scanRecords, List.mem_mergeSort, RecordStore.mem_visibleRecordsAt]
  constructor
  · rintro ⟨key, versions, hget, hprefix, hvisible⟩
    refine ⟨key, hprefix, ?_⟩
    rw [RecordStore.seenAt, hget]
    exact hvisible
  · rintro ⟨key, hprefix, hseen⟩
    obtain ⟨versions, hget, hvisible⟩ := Option.bind_eq_some_iff.1 hseen
    exact ⟨key, versions, hget, hprefix, hvisible⟩

/-- The key of a record has the prefix of its table and tenant. -/
theorem recordKeyPrefix_prefix (record : StoredRecord) :
    (recordKeyPrefix record.header.tableId record.header.tenantId).toList <+: record.key.toList :=
  ⟨record.header.recordId.toList, (String.toList_append ..).symm⟩

/-- A scan whose prefix finds only its own records lists them in the order of their ids, each
once. -/
theorem PrefixOwn.ascending {db : Db} {table tenantId : String}
    (h : PrefixOwn db.store table tenantId db.manifest.latestEpoch)
    (htips : SameTips db.manifest.latestEpoch db.store db.store) :
    ((db.scanRecords table tenantId db.manifest.latestEpoch).map recordOutput).Pairwise
      fun a b => a.id < b.id := by
  have hkeys : ((db.scanRecords table tenantId db.manifest.latestEpoch).map
      StoredRecord.key).Nodup :=
    ((List.mergeSort_perm _ _).map StoredRecord.key).nodup_iff.2
      (nodup_keys_visibleRecordsAt htips table tenantId)
  have hne := List.pairwise_map.1 (List.nodup_iff_pairwise_ne.1 hkeys)
  have hle := List.pairwise_map.1 (pairwise_scanRecords db table tenantId db.manifest.latestEpoch)
  refine List.pairwise_map.2 ((hle.and hne).imp_of_mem ?_)
  rintro a b ha hb ⟨hab, hkey⟩
  refine lt_of_le_of_ne hab fun hid => hkey ?_
  obtain ⟨key, hprefix, hseen⟩ := mem_scanRecords.1 ha
  obtain ⟨key', hprefix', hseen'⟩ := mem_scanRecords.1 hb
  obtain ⟨htable, htenant⟩ := h key a hprefix hseen
  obtain ⟨htable', htenant'⟩ := h key' b hprefix' hseen'
  have hid : a.header.recordId = b.header.recordId := hid
  rw [StoredRecord.key, StoredRecord.key, htable, htenant, htable', htenant', hid]

theorem prefixOwn_iff {db : Db} {table tenantId : String} {epoch : Epoch} :
    PrefixOwn db.store table tenantId epoch ↔
      ∀ record ∈ db.store.visibleRecordsAt table tenantId epoch,
        record.header.tableId = table ∧ record.header.tenantId = tenantId := by
  have hsorted : ∀ record, record ∈ db.scanRecords table tenantId epoch ↔
      record ∈ db.store.visibleRecordsAt table tenantId epoch := fun _ => List.mem_mergeSort
  simp only [← hsorted]
  constructor
  · intro hown record hmem
    obtain ⟨key, hprefix, hseen⟩ := mem_scanRecords.1 hmem
    exact hown key record hprefix hseen
  · exact fun h key record hprefix hseen => h record (mem_scanRecords.2 ⟨key, hprefix, hseen⟩)

/-- A scan that lists what it is asked for finds no other records. -/
theorem ListsVisible.prefixOwn {db : Db} {table tenantId : String} {epoch : Epoch}
    (h : ListsVisible db.store table tenantId epoch
      ((db.scanRecords table tenantId epoch).map recordOutput)) :
    PrefixOwn db.store table tenantId epoch := by
  intro key record hprefix hseen
  obtain ⟨_, record', -, htable, htenant, houtput⟩ := (h.exactly (recordOutput record)).1
    (List.mem_map_of_mem (mem_scanRecords.2 ⟨key, hprefix, hseen⟩))
  exact ⟨(congrArg RecordOutput.table houtput).symm.trans htable,
    (congrArg RecordOutput.tenantId houtput).symm.trans htenant⟩

/-- Without NULs the prefix finds only its own records. -/
theorem prefixOwn_of_nulFree {store : RecordStore} {epoch : Epoch}
    (htips : SameTips epoch store store) {table tenantId : String}
    (hfree : ∀ key record, store.seenAt key epoch = some record →
      NulFree record.header.tableId ∧ NulFree record.header.tenantId ∧
        (NulFree record.header.recordId ∨ NulFree table ∧ NulFree tenantId)) :
    PrefixOwn store table tenantId epoch := by
  intro key record hprefix hseen
  obtain ⟨htable, htenant, hid⟩ := hfree key record hseen
  have hkey : record.triple.key = key := key_of_seenAt htips hseen
  rw [← hkey] at hprefix
  exact eq_of_prefix htable htenant hid hprefix

/-- **Scans are exact** just when no other records have keys with the prefix.  On every reachable
handle, when the first page of a scan succeeds: whatever calls run on the handle between the pages,
following the cursors ends and the pages together list the records of the table and the tenant that
are visible at the epoch of the first page, in the order of their ids and each once, if and only if
what is visible then under keys with the prefix of the scan is of this table and tenant.  It is,
when no visible record has a NUL in its table or its tenant, and none has one in its id or the scan
has none in its own. -/
theorem scan_pages_exact_iff [F.Lossless] {dir : String} {db : Db} (hreach : Reachable F dir db)
    {actor : ActorContext} (request : RecordScanRequest) {envs : ℕ → CursorEnv} {key : Bytes}
    (henvs : Unexpired envs key) (between : ℕ → List HandleCall) {first : RecordScanOutput}
    (hfirst : db.scanAs C (envs 0) actor { request with cursor := none } = .ok first)
    (hsize : (db.store.visibleRecordsAt request.table request.tenantId
      db.manifest.latestEpoch).length ≤ usizeMax) :
    ((∃ items : List RecordOutput,
      (∀ fuel, items.length < fuel →
        followPages (db.scanPage F C between envs actor request) fuel 0 none = some (.ok items)) ∧
      ListsVisible db.store request.table request.tenantId db.manifest.latestEpoch items) ↔
        PrefixOwn db.store request.table request.tenantId db.manifest.latestEpoch) ∧
    ((∀ key record, db.store.seenAt key db.manifest.latestEpoch = some record →
      NulFree record.header.tableId ∧ NulFree record.header.tenantId ∧
        (NulFree record.header.recordId ∨ NulFree request.table ∧ NulFree request.tenantId)) →
      PrefixOwn db.store request.table request.tenantId db.manifest.latestEpoch) := by
  have htips := hreach.settled.tips
  have hpages := followPages_scanPage hreach request henvs between hfirst hsize
  refine ⟨⟨?_, fun hown => ⟨_, hpages, ?_, hown.ascending htips⟩⟩, prefixOwn_of_nulFree htips⟩
  · rintro ⟨items, hitems, hlists⟩
    obtain rfl := followPages_unique hitems hpages
    exact hlists.prefixOwn
  · intro output
    rw [List.mem_map]
    constructor
    · rintro ⟨record, hrecord, rfl⟩
      obtain ⟨key, hprefix, hseen⟩ := mem_scanRecords.1 hrecord
      obtain ⟨htable, htenant⟩ := hown key record hprefix hseen
      exact ⟨key, record, hseen, htable, htenant, rfl⟩
    · rintro ⟨key, record, hseen, htable, htenant, rfl⟩
      refine ⟨record, mem_scanRecords.2 ⟨key, ?_, hseen⟩, rfl⟩
      rw [← key_of_seenAt htips hseen, ← htable, ← htenant]
      exact recordKeyPrefix_prefix record

/-- The user that the cases are shown to, with a signing key and with nothing between the pages. -/
def casesReader : ActorContext := .tenantUser "t" "u"

/-- A signing key that stays, and time that stands still. -/
def steadyEnvs : ℕ → CursorEnv := fun _ => ⟨.ok (some (List.replicate 32 7)), 900, 0⟩

theorem unexpired_steadyEnvs : Unexpired steadyEnvs (List.replicate 32 7) :=
  ⟨fun _ => rfl, fun _ => Nat.zero_le _⟩

/-- A handle with two cases. -/
def twoCasesDb : Db := casesDb [sampleCase "a" [], sampleCase "b" []]

theorem twoCasesDb_shows : (findTable twoCasesDb.manifest.schemas "cases").isSome = true ∧
    (twoCasesDb.store.visibleRecordsAt "cases" "t" twoCasesDb.manifest.latestEpoch).length = 2 ∧
    ∀ record ∈ twoCasesDb.store.visibleRecordsAt "cases" "t" twoCasesDb.manifest.latestEpoch,
      record.header.tableId = "cases" ∧ record.header.tenantId = "t" := by
  refine casesDb_shows _ (P := fun db => (findTable db.manifest.schemas "cases").isSome = true ∧
    (db.store.visibleRecordsAt "cases" "t" db.manifest.latestEpoch).length = 2 ∧
    ∀ record ∈ db.store.visibleRecordsAt "cases" "t" db.manifest.latestEpoch,
      record.header.tableId = "cases" ∧ record.header.tenantId = "t") ?_
  decide +kernel

/-- Two cases, one on a page, while the second is deleted after the first page. -/
theorem scan_pages_exact_cases :
    let between := fun _ : ℕ => [HandleCall.run (.delete ⟨"cases", "b", "t", "gone"⟩ none)]
    ∃ items : List RecordOutput,
      (∀ fuel, items.length < fuel →
        followPages (twoCasesDb.scanPage .reference .reference between steadyEnvs casesReader
          ⟨"cases", "t", 1, none⟩) fuel 0 none = some (.ok items)) ∧
      ListsVisible twoCasesDb.store "cases" "t" twoCasesDb.manifest.latestEpoch items := by
  intro between
  obtain ⟨htable, hlength, hown⟩ := twoCasesDb_shows
  have hsize : (twoCasesDb.store.visibleRecordsAt "cases" "t"
      twoCasesDb.manifest.latestEpoch).length ≤ usizeMax := by
    rw [hlength]
    decide
  obtain ⟨first, hfirst⟩ : ∃ first, twoCasesDb.scanAs .reference (steadyEnvs 0) casesReader
      ⟨"cases", "t", 1, none⟩ = .ok first :=
    scanAs_first ⟨"cases", "t", 1, none⟩ rfl rfl htable rfl
      (by rwa [List.length_map, Db.scanRecords, List.length_mergeSort])
  exact (scan_pages_exact_iff (F := .reference) (reachable_casesDb _) ⟨"cases", "t", 1, none⟩
    unexpired_steadyEnvs between hfirst hsize).1.2 (prefixOwn_iff.2 hown)

/-- A case of the tenant `t`, and one of the tenant `t NUL u` with the same id. -/
def foreignCaseDb : Db := casesDb [sampleCase "a" [], ⟨"cases", "a", "t\x00u", ∅⟩]

theorem foreignCaseDb_shows : (findTable foreignCaseDb.manifest.schemas "cases").isSome = true ∧
    (foreignCaseDb.store.visibleRecordsAt "cases" "t" foreignCaseDb.manifest.latestEpoch).map
      (fun record => (record.header.tenantId, record.header.recordId)) =
        [("t", "a"), ("t\x00u", "a")] := by
  refine casesDb_shows _ (P := fun db => (findTable db.manifest.schemas "cases").isSome = true ∧
    (db.store.visibleRecordsAt "cases" "t" db.manifest.latestEpoch).map
      (fun record => (record.header.tenantId, record.header.recordId)) =
        [("t", "a"), ("t\x00u", "a")]) ?_
  decide +kernel

/-- **The scan of another tenant**: the pages of the tenant `t` also list the case of `t NUL u`, and
so one id twice. -/
theorem scan_lists_foreign :
    Reachable .reference "db" foreignCaseDb ∧
    (∃ first, foreignCaseDb.scanAs .reference (steadyEnvs 0) casesReader ⟨"cases", "t", 1, none⟩ =
      .ok first) ∧
    ∀ items : List RecordOutput,
      (∀ fuel, items.length < fuel →
        followPages (foreignCaseDb.scanPage .reference .reference
          (fun _ => []) steadyEnvs casesReader
          ⟨"cases", "t", 1, none⟩) fuel 0 none = some (.ok items)) →
      (items.map fun item => (item.tenantId, item.id)).Perm [("t", "a"), ("t\x00u", "a")] ∧
        ¬ ListsVisible foreignCaseDb.store "cases" "t"
          foreignCaseDb.manifest.latestEpoch items := by
  have hreach : Reachable .reference "db" foreignCaseDb := reachable_casesDb _
  obtain ⟨htable, hshows⟩ := foreignCaseDb_shows
  have hlength := congrArg List.length hshows
  rw [List.length_map] at hlength
  have hsize : (foreignCaseDb.store.visibleRecordsAt "cases" "t"
      foreignCaseDb.manifest.latestEpoch).length ≤ usizeMax := by
    rw [hlength]
    decide
  obtain ⟨first, hfirst⟩ : ∃ first, foreignCaseDb.scanAs .reference (steadyEnvs 0) casesReader
      ⟨"cases", "t", 1, none⟩ = .ok first :=
    scanAs_first ⟨"cases", "t", 1, none⟩ rfl rfl htable rfl
      (by rwa [List.length_map, Db.scanRecords, List.length_mergeSort])
  refine ⟨hreach, ⟨first, hfirst⟩, fun items hitems => ?_⟩
  obtain rfl := followPages_unique hitems
    (followPages_scanPage hreach ⟨"cases", "t", 1, none⟩ unexpired_steadyEnvs
      (fun _ => []) hfirst hsize)
  refine ⟨?_, fun hlists => ?_⟩
  · rw [List.map_map, ← hshows]
    exact (List.mergeSort_perm _ _).map _
  · have hown := prefixOwn_iff.1 hlists.prefixOwn
    have hforeign : ("t\x00u", "a") ∈ (foreignCaseDb.store.visibleRecordsAt "cases" "t"
        foreignCaseDb.manifest.latestEpoch).map
          fun record => (record.header.tenantId, record.header.recordId) := by
      rw [hshows]
      exact List.mem_cons_of_mem _ List.mem_cons_self
    obtain ⟨record, hrecord, heq⟩ := List.mem_map.1 hforeign
    have htenant := (hown record hrecord).2
    rw [(Prod.mk.inj heq).1] at htenant
    revert htenant
    decide

end TraceDB
