import TraceDB.Engine.History
import TraceDB.Query.Rows
import TraceDB.Query.Samples

/-!
# Queries and the cache of prepared corpora

A query on a large table scores its text against a prepared corpus, which the handle keeps for the
next query under the same key.  The key has the table, the tenant, the latest epoch, the filter and
the text columns.  It has neither the actor, whose policies decide which records are in the corpus,
nor the epoch of the cursor.

* `Db.cachedCorpus` : what a query puts into the cache, with its key.
* `Reader`, `Reader.run` : a handle with its cache, while queries and other calls run on it.
* `cache_transparent` : in runs where the queries under one key have the same documents, every query
  gives what it gives on a handle with an empty cache.
* `other_users_corpus` : without that, the query of one user is scored against the corpus of
  another.
-/

namespace TraceDB

variable {S : Type}

/-- A call of `query_as`, with what it reads from its environment. -/
structure QueryCall (S : Type) where
  env : CursorEnv
  actor : ActorContext
  query : HybridQuery S

/-- Whether an operation ends with `clear_lexical_cache`. -/
def Op.clearsCache : Op → Bool
  | .recordIdempotencyReceipt _ | .enqueueJob _ _ _ | .leaseJob _ _ _ _ | .heartbeatJob _ _ _ _
  | .completeJob _ _ | .failJob _ _ _ _ _ => false
  | _ => true

/-- The cache after a call that changes the handle. -/
def HandleCall.cacheAfter (F : EngineFormat) (db : Db) (cache : LexicalCorpusCache S) :
    HandleCall → LexicalCorpusCache S
  | .run op => if op.clearsCache && (db.run F op).1.isOk then .empty else cache
  | .checkpoint => if (db.checkpoint F).1.isOk then .empty else cache
  | .publish segmentId => if (db.publishSegment F segmentId).isOk then .empty else cache
  | .compact => if (db.compact F).isOk then .empty else cache

/-- One call on a handle. -/
inductive ReaderStep (S : Type) where
  | query (call : QueryCall S)
  | call (call : HandleCall)

/-- A handle with its cache, and the queries that have run on it, each with the handle as it was. -/
structure Reader (S : Type) where
  db : Db
  cache : LexicalCorpusCache S
  past : List (Db × QueryCall S)

variable (F : EngineFormat) (Q : QueryFormat S) (index : IndexFiles S)

namespace Db

variable (db : Db)

/-- The result of a query, with a cache. -/
def answer (cache : LexicalCorpusCache S) (call : QueryCall S) : Result (QueryOutput S) :=
  (db.queryAs Q index call.env cache call.actor call.query).1

/-- The input that a query ranks, if it gets that far. -/
def queryInput (call : QueryCall S) : Option QueryInput :=
  match db.queryCursor Q call.env call.actor call.query, db.validateQuery call.query with
  | .ok cursor, .ok schema =>
    if call.query.topK = 0 then none
    else
      match db.querySealed Q index call.query cursor.snapshotEpoch call.actor with
      | .error _ => none
      | .ok sealedRecords =>
        some ⟨schema, db.queryVisible Q call.query cursor.snapshotEpoch call.actor, sealedRecords⟩
  | _, _ => none

/-- The key and the documents of a query that goes through the cache. -/
def cachedCorpus (call : QueryCall S) : Option (LexicalCacheKey × List (String × String)) :=
  match db.queryInput Q index call, call.query.text with
  | some input, some _ =>
    if input.visible.length + input.sealedRecords.length < minLexicalCacheDocuments then none
    else some (db.lexicalCacheKey Q input.schema call.query,
      lexicalDocuments input.schema input.visible input.sealedRecords call.query.textField)
  | _, _ => none

/-- Two queries under the same key have the same documents. -/
def SameCorpus (earlier later : QueryCall S) : Prop :=
  ∀ key docs docs', db.cachedCorpus Q index earlier = some (key, docs) →
    db.cachedCorpus Q index later = some (key, docs') → docs = docs'

end Db

namespace Reader

/-- A handle that was just opened. -/
def start (db : Db) : Reader S := ⟨db, .empty, []⟩

/-- One call. -/
def step (s : Reader S) : ReaderStep S → Reader S
  | .query call =>
    { s with
      cache := (s.db.queryAs Q index call.env s.cache call.actor call.query).2
      past := s.past ++ [(s.db, call)] }
  | .call call => ⟨call.after F s.db, call.cacheAfter F s.db s.cache, s.past⟩

/-- The calls of a run, in order. -/
def run (s : Reader S) (steps : List (ReaderStep S)) : Reader S := steps.foldl (step F Q index) s

/-- A query has the documents of every earlier query under its key on the handle as it is. -/
def Fresh (s : Reader S) (call : QueryCall S) : Prop :=
  ∀ earlier, (s.db, earlier) ∈ s.past → s.db.SameCorpus Q index earlier call

end Reader

/-- Every entry of the cache is of an epoch that has passed, or was prepared from the documents of a
query on the handle as it is. -/
def CacheInv (s : Reader S) : Prop :=
  ∀ entry ∈ s.cache.entries, entry.key.readEpoch < s.db.manifest.latestEpoch ∨
    ∃ call text docs, (s.db, call) ∈ s.past ∧
      s.db.cachedCorpus Q index call = some (entry.key, docs) ∧
      entry.corpus = (Q.fromDocumentsWithInitialScore text docs).1

variable {F Q index} {db : Db} {cache : LexicalCorpusCache S} {call : QueryCall S}

/-! ### What a query does with the cache -/

theorem queryInput_eq_some {input : QueryInput} (h : db.queryInput Q index call = some input) :
    ∃ cursor, db.queryCursor Q call.env call.actor call.query = .ok cursor ∧
      db.validateQuery call.query = .ok input.schema ∧ call.query.topK ≠ 0 ∧
      db.querySealed Q index call.query cursor.snapshotEpoch call.actor = .ok input.sealedRecords ∧
      input.visible = db.queryVisible Q call.query cursor.snapshotEpoch call.actor := by
  unfold Db.queryInput at h
  split at h
  · rename_i cursor schema hcursor hschema
    split_ifs at h with htop
    split at h
    · cases h
    · rename_i sealedRecords hsealed
      obtain rfl := Option.some.inj h
      exact ⟨cursor, hcursor, hschema, htop, hsealed, rfl⟩
  · cases h

/-- A query that ranks its input. -/
theorem queryAs_of_input {input : QueryInput} (h : db.queryInput Q index call = some input) :
    ∃ cursor, db.queryCursor Q call.env call.actor call.query = .ok cursor ∧
      ∀ cache, db.queryAs Q index call.env cache call.actor call.query =
        (db.queryPage Q index call.env input call.query cursor
          (cursorScopeForQuery Q call.actor call.query (max call.query.topK 1))
          (db.lexicalScores Q cache input call.query).1,
        (db.lexicalScores Q cache input call.query).2) := by
  obtain ⟨cursor, hcursor, hschema, htop, hsealed, hvisible⟩ := queryInput_eq_some h
  refine ⟨cursor, hcursor, fun cache => ?_⟩
  simp only [Db.queryAs, hcursor, Db.queryInternal, hschema, if_neg htop, hsealed, ← hvisible]

/-- A query that does not get that far leaves the cache alone, and does not look at it. -/
theorem queryAs_of_no_input (h : db.queryInput Q index call = none) :
    ∃ result, ∀ cache, db.queryAs Q index call.env cache call.actor call.query =
      (result, cache) := by
  unfold Db.queryInput at h
  simp only [Db.queryAs, Db.queryInternal]
  cases hcursor : db.queryCursor Q call.env call.actor call.query with
  | error e => exact ⟨_, fun _ => rfl⟩
  | ok cursor =>
    cases hschema : db.validateQuery call.query with
    | error e => exact ⟨_, fun _ => rfl⟩
    | ok schema =>
      rw [hcursor, hschema] at h
      dsimp only at h ⊢
      split_ifs at h ⊢ with htop
      · exact ⟨_, fun _ => rfl⟩
      · cases hsealed : db.querySealed Q index call.query cursor.snapshotEpoch call.actor with
        | error e => exact ⟨_, fun _ => rfl⟩
        | ok sealedRecords =>
          rw [hsealed] at h
          cases h

/-- A query that goes through the cache: the prepared corpus under its key, or a new one. -/
theorem lexicalScores_of_corpus (cache : LexicalCorpusCache S) {input : QueryInput}
    (hinput : db.queryInput Q index call = some input) {text : String}
    (htext : call.query.text = some text) {key : LexicalCacheKey} {docs : List (String × String)}
    (hcorpus : db.cachedCorpus Q index call = some (key, docs)) :
    db.lexicalScores Q cache input call.query =
      match cache.get key with
      | (some corpus, cache) => (Q.scoreQueryWithStats corpus text, cache)
      | (none, cache) => ((Q.fromDocumentsWithInitialScore text docs).2,
          cache.insert key (Q.fromDocumentsWithInitialScore text docs).1) := by
  rw [Db.cachedCorpus, hinput, htext] at hcorpus
  dsimp only at hcorpus
  split_ifs at hcorpus with hsmall
  obtain ⟨rfl, rfl⟩ := Prod.mk.inj (Option.some.inj hcorpus)
  rw [Db.lexicalScores, htext]
  exact if_neg hsmall

/-- A query that does not go through the cache. -/
theorem lexicalScores_of_no_corpus {input : QueryInput}
    (hinput : db.queryInput Q index call = some input)
    (hcorpus : db.cachedCorpus Q index call = none) :
    ∃ scores, ∀ cache, db.lexicalScores Q cache input call.query = (scores, cache) := by
  unfold Db.lexicalScores
  cases htext : call.query.text with
  | none => exact ⟨[], fun _ => rfl⟩
  | some text =>
    rw [Db.cachedCorpus, hinput, htext] at hcorpus
    dsimp only at hcorpus
    split_ifs at hcorpus with hsmall
    exact ⟨_, fun _ => if_pos hsmall⟩

/-- The text of a query that goes through the cache. -/
theorem exists_text_of_corpus {key : LexicalCacheKey} {docs : List (String × String)}
    (h : db.cachedCorpus Q index call = some (key, docs)) :
      ∃ text, call.query.text = some text := by
  unfold Db.cachedCorpus at h
  split at h
  · rename_i htext
    exact ⟨_, htext⟩
  · cases h

/-- The entries after the scores of a query were computed: old ones, and one for the query
itself. -/
theorem mem_lexicalScores {input : QueryInput} (hinput : db.queryInput Q index call = some input)
    {entry : LexicalCacheEntry S}
    (h : entry ∈ (db.lexicalScores Q cache input call.query).2.entries) :
    (∃ old ∈ cache.entries, old.key = entry.key ∧ old.corpus = entry.corpus) ∨
      ∃ text docs, db.cachedCorpus Q index call = some (entry.key, docs) ∧
        entry.corpus = (Q.fromDocumentsWithInitialScore text docs).1 := by
  cases hcorpus : db.cachedCorpus Q index call with
  | none =>
    obtain ⟨scores, hscores⟩ := lexicalScores_of_no_corpus hinput hcorpus
    rw [hscores] at h
    exact .inl ⟨entry, h, rfl, rfl⟩
  | some corpus =>
    obtain ⟨key, docs⟩ := corpus
    obtain ⟨text, htext⟩ := exists_text_of_corpus hcorpus
    rw [lexicalScores_of_corpus cache hinput htext hcorpus] at h
    have hold : ∀ cache', (cache.get key).2 = cache' → entry ∈ cache'.entries →
        ∃ old ∈ cache.entries, old.key = entry.key ∧ old.corpus = entry.corpus := by
      rintro cache' rfl hmem
      exact cache.mem_get hmem
    rcases hget : cache.get key with ⟨_ | prepared, cache'⟩
    · rw [hget] at h
      rcases LexicalCorpusCache.mem_insert _ h with ⟨rfl, hprepared⟩ | hmem
      · exact .inr ⟨text, docs, rfl, hprepared⟩
      · exact .inl (hold cache' (congrArg Prod.snd hget) hmem)
    · rw [hget] at h
      exact .inl (hold cache' (congrArg Prod.snd hget) h)

/-- **The scores of a query** do not depend on the cache, when what stands under its key was
prepared from its own documents. -/
theorem lexicalScores_eq {input : QueryInput} (hinput : db.queryInput Q index call = some input)
    (hcache : ∀ key docs, db.cachedCorpus Q index call = some (key, docs) →
      ∀ entry ∈ cache.entries, entry.key = key →
        ∃ text, entry.corpus = (Q.fromDocumentsWithInitialScore text docs).1) :
    (db.lexicalScores Q cache input call.query).1 =
      (db.lexicalScores Q .empty input call.query).1 := by
  cases hcorpus : db.cachedCorpus Q index call with
  | none =>
    obtain ⟨scores, hscores⟩ := lexicalScores_of_no_corpus hinput hcorpus
    rw [hscores, hscores]
  | some corpus =>
    obtain ⟨key, docs⟩ := corpus
    obtain ⟨text, htext⟩ := exists_text_of_corpus hcorpus
    have hempty : (LexicalCorpusCache.empty : LexicalCorpusCache S).get key = (none, ⟨[], 1⟩) := rfl
    rw [lexicalScores_of_corpus cache hinput htext hcorpus,
      lexicalScores_of_corpus .empty hinput htext hcorpus, hempty]
    rcases hget : cache.get key with ⟨_ | prepared, cache'⟩
    · rfl
    · -- The corpus that is found scores the text as its documents are scored.
      obtain ⟨entry, hentry, hkey, rfl⟩ := cache.get_eq_some (congrArg Prod.fst hget)
      obtain ⟨first, hprepared⟩ := hcache key docs hcorpus entry hentry hkey
      dsimp only
      rw [hprepared]
      exact Q.scoreQuery_prepared first text docs

/-! ### Runs -/

theorem cachedCorpus_readEpoch {key : LexicalCacheKey} {docs : List (String × String)}
    (h : db.cachedCorpus Q index call = some (key, docs)) :
    key.readEpoch = db.manifest.latestEpoch := by
  unfold Db.cachedCorpus at h
  split at h
  · split_ifs at h
    obtain ⟨rfl, -⟩ := Prod.mk.inj (Option.some.inj h)
    rfl
  · cases h

/-- A call leaves the handle alone, empties the cache or moves on to a later epoch. -/
theorem HandleCall.cacheAfter_cases [F.Lossless] {dir : String} (h : Reachable F dir db)
    (call : HandleCall) (cache : LexicalCorpusCache S) :
    call.cacheAfter F db cache = .empty ∨ call.cacheAfter F db cache = cache ∧
      (call.after F db = db ∨
        db.manifest.latestEpoch < (call.after F db).manifest.latestEpoch) := by
  obtain ⟨entries, hsync⟩ := h.synced
  cases call with
  | run op =>
    rw [HandleCall.cacheAfter]
    split_ifs
    · exact .inl rfl
    · refine .inr ⟨rfl, ?_⟩
      rcases hsync.run_cases op with hsame | ⟨plan, hplan, -, hrun, -⟩
      · exact .inl hsame
      · rw [HandleCall.after, hrun]
        refine .inr ?_
        have hepoch : (db.committed F entries plan).manifest.latestEpoch = plan.commit.epoch := rfl
        rw [hepoch, (stamped_plan hplan).epoch]
        exact Nat.lt_succ_self _
  | checkpoint =>
    rw [HandleCall.cacheAfter, hsync.checkpoint_eq]
    exact .inl rfl
  | publish segmentId =>
    rw [HandleCall.cacheAfter, HandleCall.after]
    cases db.publishSegment F segmentId with
    | error e => exact .inr ⟨rfl, .inl rfl⟩
    | ok db' => exact .inl rfl
  | compact =>
    rw [HandleCall.cacheAfter, HandleCall.after]
    cases db.compact F with
    | error e => exact .inr ⟨rfl, .inl rfl⟩
    | ok db' => exact .inl rfl

namespace CacheInv

theorem start (db : Db) : CacheInv Q index (.start db) := by
  intro entry hentry
  cases hentry

theorem queryStep {s : Reader S} (h : CacheInv Q index s) (call : QueryCall S) :
    CacheInv Q index (s.step F Q index (.query call)) := by
  have hkeep : ∀ entry : LexicalCacheEntry S,
      (∃ old ∈ s.cache.entries, old.key = entry.key ∧ old.corpus = entry.corpus) →
      entry.key.readEpoch < s.db.manifest.latestEpoch ∨ ∃ earlier text docs,
        (s.db, earlier) ∈ s.past ++ [(s.db, call)] ∧
        s.db.cachedCorpus Q index earlier = some (entry.key, docs) ∧
        entry.corpus = (Q.fromDocumentsWithInitialScore text docs).1 := by
    rintro entry ⟨old, hold, hkey, hcorpus⟩
    rw [← hkey, ← hcorpus]
    refine (h old hold).imp id ?_
    rintro ⟨earlier, text, docs, hpast, hprepared⟩
    exact ⟨earlier, text, docs, List.mem_append_left _ hpast, hprepared⟩
  intro entry hentry
  change entry ∈ (s.db.queryAs Q index call.env s.cache call.actor call.query).2.entries at hentry
  cases hinput : s.db.queryInput Q index call with
  | none =>
    obtain ⟨result, hresult⟩ := queryAs_of_no_input hinput
    rw [hresult] at hentry
    exact hkeep entry ⟨entry, hentry, rfl, rfl⟩
  | some input =>
    obtain ⟨cursor, -, hquery⟩ := queryAs_of_input hinput
    rw [hquery] at hentry
    rcases mem_lexicalScores hinput hentry with hold | ⟨text, docs, hcorpus, hprepared⟩
    · exact hkeep entry hold
    · exact .inr ⟨call, text, docs, List.mem_append_right _ (List.mem_singleton.2 rfl), hcorpus,
        hprepared⟩

theorem callStep [F.Lossless] {s : Reader S} {dir : String} (h : CacheInv Q index s)
    (hreach : Reachable F dir s.db) (call : HandleCall) :
      CacheInv Q index (s.step F Q index (.call call)) := by
  intro entry hentry
  change entry ∈ (call.cacheAfter F s.db s.cache).entries at hentry
  show entry.key.readEpoch < (call.after F s.db).manifest.latestEpoch ∨ ∃ earlier text docs,
    (call.after F s.db, earlier) ∈ s.past ∧
      (call.after F s.db).cachedCorpus Q index earlier = some (entry.key, docs) ∧ _
  rcases call.cacheAfter_cases hreach s.cache with hempty | ⟨hsame, hdb | hlater⟩
  · rw [hempty] at hentry
    cases hentry
  · rw [hsame] at hentry
    rw [hdb]
    exact h entry hentry
  · rw [hsame] at hentry
    rcases h entry hentry with hold | ⟨earlier, text, docs, -, hcorpus, -⟩
    · exact .inl (hold.trans hlater)
    · rw [cachedCorpus_readEpoch hcorpus]
      exact .inl hlater

/-- The invariant along a run. -/
theorem run [F.Lossless] {s : Reader S} {dir : String} (h : CacheInv Q index s)
    (hreach : Reachable F dir s.db) (steps : List (ReaderStep S)) :
      CacheInv Q index (s.run F Q index steps) := by
  induction steps generalizing s with
  | nil => exact h
  | cons step steps ih =>
    cases step with
    | query call => exact ih (h.queryStep call) hreach
    | call call => exact ih (h.callStep hreach call) (hreach.keepsPast_call call).1

/-- One query on a handle that meets the invariant. -/
theorem answer {s : Reader S} (h : CacheInv Q index s) {call : QueryCall S}
    (hfresh : s.Fresh Q index call) :
    s.db.answer Q index s.cache call = s.db.answer Q index .empty call := by
  unfold Db.answer
  cases hinput : s.db.queryInput Q index call with
  | none =>
    obtain ⟨result, hresult⟩ := queryAs_of_no_input hinput
    rw [hresult, hresult]
  | some input =>
    obtain ⟨cursor, -, hquery⟩ := queryAs_of_input hinput
    have hscores : (s.db.lexicalScores Q s.cache input call.query).1 =
        (s.db.lexicalScores Q .empty input call.query).1 := by
      refine lexicalScores_eq hinput fun key docs hcorpus entry hentry hkey => ?_
      rcases h entry hentry with hold | ⟨earlier, text, docs', hpast, hcorpus', hprepared⟩
      · -- The key of the query has the latest epoch.
        rw [hkey, cachedCorpus_readEpoch hcorpus] at hold
        exact absurd hold (lt_irrefl _)
      · rw [hkey] at hcorpus'
        obtain rfl := hfresh earlier hpast key docs' docs hcorpus' hcorpus
        exact ⟨text, hprepared⟩
    rw [hquery, hquery, hscores]

end CacheInv

/-- **Transparency of the cache.**  Whatever queries and other calls have run on a handle, by any
actors, at any epochs and with any filters: a query whose documents are those of every earlier query
under its key on the handle as it is gives what it gives with an empty cache. -/
theorem cache_transparent [F.Lossless] {dir : String} (hreach : Reachable F dir db)
    (steps : List (ReaderStep S)) {call : QueryCall S}
    (hfresh : ((Reader.start db).run F Q index steps).Fresh Q index call) :
    let s := (Reader.start db).run F Q index steps
    s.db.answer Q index s.cache call = s.db.answer Q index .empty call :=
  ((CacheInv.start db).run hreach steps).answer hfresh

/-- A query that comes again. -/
theorem cache_transparent_again :
    let db := casesDb [sampleCase "a" [("body", .string "x")]]
    let call : QueryCall ℚ := ⟨.unsigned, .tenantUser "t" "u", { casesQuery with text := some "x" }⟩
    let s := (Reader.start db).run .reference .reference .none [.query call]
    s.db.answer .reference .none s.cache call = db.answer .reference .none .empty call := by
  intro db call
  have hreach : Reachable .reference "db" db := reachable_casesDb _
  refine cache_transparent hreach [.query call] fun earlier hpast key docs docs' hdocs hdocs' => ?_
  obtain rfl : earlier = call := (Prod.mk.inj (List.mem_singleton.1 hpast)).2
  exact (Prod.mk.inj (Option.some.inj (hdocs.symm.trans hdocs'))).2

/-! ### The corpus of another user -/

/-- `Policy::tenant("t")` as JSON, for one user. -/
def aclPolicy (userId : String) : Value :=
  .object [("acl", .array [.object [("allow", .bool true), ("user_id", .string userId)]]),
    ("allow_embedding", .bool true), ("allow_training", .bool false), ("owner_id", .null),
    ("retention", .object [("legal_hold", .bool false), ("retain_until_epoch", .null)]),
    ("sensitivity", .string "normal"), ("suppress_from_ai", .bool false),
    ("tenant_id", .string "t"), ("visibility", .string "Acl"), ("workspace_id", .null)]

/-- Two cases, each for one user. -/
def separateCases : List RecordInput :=
  [sampleCase "a" [(policyFieldName, aclPolicy "v")],
    sampleCase "s" [(policyFieldName, aclPolicy "u"), ("body", .string "x")]]

/-- What a user sees of a handle and of a segment that is published from it: ids and texts. -/
def shownTo (db : Db) (userId : String) : List (String × String) × List (String × String) :=
  (((db.store.visibleRecordsAt "cases" "t" db.manifest.latestEpoch).filter
      (storedRecordVisible .reference (.tenantUser "t" userId))).map fun record =>
        (record.header.recordId, textBody casesSchema record.fields none),
    (((db.segmentRecordsForSnapshot.filter fun record =>
        decide (record.table = "cases" ∧ record.tenantId = "t")).filter fun record =>
          record.versionId ≤ db.manifest.latestEpoch).filter
      (segmentRecordVisible .reference (.tenantUser "t" userId))).map fun record =>
        (record.recordId, segmentTextBody record none))

theorem separateCases_shows : (casesDb separateCases).manifest.segments = [] ∧
    (casesDb separateCases).disk.segments.isEmpty = true ∧
    shownTo (casesDb separateCases) "u" = ([("s", "x")], [("s", "x")]) ∧
    shownTo (casesDb separateCases) "v" = ([("a", "")], [("a", "")]) ∧
    findTable (casesDb separateCases).manifest.schemas "cases" = some casesSchema := by
  refine casesDb_shows separateCases (P := fun db => db.manifest.segments = [] ∧
    db.disk.segments.isEmpty = true ∧ shownTo db "u" = ([("s", "x")], [("s", "x")]) ∧
    shownTo db "v" = ([("a", "")], [("a", "")]) ∧
    findTable db.manifest.schemas "cases" = some casesSchema) ?_
  decide +kernel

/-- A query for the word `x`. -/
def wordQuery : HybridQuery ℚ := { casesQuery with text := some "x" }

/-- A user of the tenant asks for the word. -/
def wordCall (userId : String) : QueryCall ℚ := ⟨.unsigned, .tenantUser "t" userId, wordQuery⟩

/-- The input of the query for the word on copies of a handle, for a user who sees one case. -/
structure OneCase (n : ℕ) (id text : String) (input : QueryInput) : Prop where
  schema : input.schema = casesSchema
  visible : ∃ record, input.visible = [record] ∧ record.header.recordId = id ∧
    textBody casesSchema record.fields none = text
  sealedRecords : ∃ record, input.sealedRecords = List.replicate n record ∧ record.recordId = id ∧
    segmentTextBody record none = text

theorem queryInput_copies {db₀ db : Db} {n : ℕ} (hcopies : HasCopies IndexFiles.none db₀ n db)
    (hschema : findTable db₀.manifest.schemas "cases" = some casesSchema) {userId id text : String}
    (hshown : shownTo db₀ userId = ([(id, text)], [(id, text)])) :
    ∃ input, db.queryInput .reference .none (wordCall userId) = some input ∧
    OneCase n id text input := by
  obtain ⟨hstored, hsegment⟩ := Prod.mk.inj hshown
  obtain ⟨record, hrecord, hpair⟩ := List.map_eq_singleton_iff.1 hstored
  obtain ⟨copy, hcopy, hcopied⟩ := List.map_eq_singleton_iff.1 hsegment
  obtain ⟨hid, htext⟩ := Prod.mk.inj hpair
  obtain ⟨hcopyId, hcopyText⟩ := Prod.mk.inj hcopied
  have hcursor : db.queryCursor .reference .unsigned (.tenantUser "t" userId) wordQuery =
      .ok ⟨0, db.manifest.latestEpoch⟩ := rfl
  have hvalid : db.validateQuery wordQuery = .ok casesSchema := by
    have htable : tableOrUnknown db.manifest.schemas "cases" = .ok casesSchema := by
      rw [tableOrUnknown, hcopies.schemas, hschema]
    show (tableOrUnknown db.manifest.schemas "cases" >>= _) = _
    rw [htable]
    rfl
  have hvisible : db.queryVisible .reference wordQuery db.manifest.latestEpoch
      (.tenantUser "t" userId) = [record] := by
    rw [Db.queryVisible, hcopies.store, hcopies.latestEpoch]
    show List.filter _ (List.filter _ (db₀.store.visibleRecordsAt "cases" "t" _)) = _
    rw [hrecord]
    rfl
  have hsealed : db.querySealed .reference .none wordQuery db.manifest.latestEpoch
      (.tenantUser "t" userId) = .ok (List.replicate n copy) := by
    show (db.sealedSegmentRecords .none "cases" "t" >>= _) = _
    rw [hcopies.records, Except.ok_bind, hcopies.latestEpoch]
    simp only [List.filter_flatten, List.map_replicate]
    rw [hcopy, List.filter_singleton]
    exact congrArg Except.ok List.flatten_replicate_singleton
  refine ⟨⟨casesSchema, [record], List.replicate n copy⟩, ?_, rfl, ⟨record, rfl, hid, htext⟩,
    copy, rfl, hcopyId, hcopyText⟩
  rw [Db.queryInput, wordCall, hcursor, hvalid]
  dsimp only
  rw [hsealed, hvisible]
  rfl

namespace OneCase

variable {n : ℕ} {id text : String} {input : QueryInput}

theorem documents (h : OneCase n id text input) :
    lexicalDocuments input.schema input.visible input.sealedRecords none =
      List.replicate (n + 1) (id, text) := by
  obtain ⟨record, hvisible, rfl, rfl⟩ := h.visible
  obtain ⟨copy, hsealed, hid, htext⟩ := h.sealedRecords
  rw [lexicalDocuments, h.schema, hvisible, hsealed, List.map_replicate, hid, htext,
    List.replicate_succ]
  rfl

theorem length (h : OneCase n id text input) :
    input.visible.length + input.sealedRecords.length = n + 1 := by
  obtain ⟨record, hvisible, -⟩ := h.visible
  obtain ⟨copy, hsealed, -⟩ := h.sealedRecords
  rw [hvisible, hsealed, List.length_replicate, List.length_singleton, Nat.add_comm]

/-- A query over enough copies goes through the cache. -/
theorem cachedCorpus (h : OneCase n id text input) (hn : minLexicalCacheDocuments ≤ n + 1) {db : Db}
    {userId : String} (hinput : db.queryInput .reference .none (wordCall userId) = some input) :
    db.cachedCorpus .reference .none (wordCall userId) =
      some (db.lexicalCacheKey .reference casesSchema wordQuery,
        List.replicate (n + 1) (id, text)) := by
  have hlarge : ¬ input.visible.length + input.sealedRecords.length < minLexicalCacheDocuments := by
    rw [h.length]
    exact not_lt.2 hn
  have hdocuments := h.documents
  rw [Db.cachedCorpus, hinput]
  show (if _ then none else some (_, lexicalDocuments _ _ _ none)) = _
  rw [if_neg hlarge, hdocuments, h.schema]
  rfl

/-- The one case can be found, and stands alone. -/
theorem scoredAlone (h : OneCase n id text input) {scores : List (String × ℚ)}
    (hscored : ∃ score, (id, score) ∈ scores) : ScoredAlone input wordQuery scores id := by
  obtain ⟨record, hvisible, hid, -⟩ := h.visible
  obtain ⟨copy, hsealed, hcopy, -⟩ := h.sealedRecords
  refine ⟨rfl, by decide, ?_, ⟨record, ?_⟩, hscored⟩
  · rw [hvisible, hsealed, List.map_replicate, hcopy]
    intro other hother
    rcases List.mem_append.1 hother with hother | hother
    · exact (List.mem_singleton.1 hother).trans hid
    · exact List.eq_of_mem_replicate hother
  · rw [QueryInput.stored?, hvisible]
    simp [List.findLast?, hid]

end OneCase

/-- The query of `u` after the query of `v`, when `u` sees a case with the word and `v` one
without. -/
theorem answer_after_other {db : Db} {n : ℕ} (hn : minLexicalCacheDocuments ≤ n + 1)
    {input input' : QueryInput}
    (hinput : db.queryInput .reference .none (wordCall "u") = some input)
    (hone : OneCase n "s" "x" input)
    (hinput' : db.queryInput .reference .none (wordCall "v") = some input')
    (hone' : OneCase n "a" "" input') (hscored : ∃ score, ("s", score) ∈
      (F32.rational.fromDocumentsWithInitialScore "x" (List.replicate (n + 1) ("s", "x"))).2) :
    let s := (Reader.start db).run .reference .reference .none [.query (wordCall "v")]
    s.db.answer .reference .none s.cache (wordCall "u") ≠
      s.db.answer .reference .none .empty (wordCall "u") := by
  intro s
  -- The query of `v` leaves its corpus under the key.
  have hcache : s.cache = LexicalCorpusCache.insert ⟨[], 1⟩
      (db.lexicalCacheKey .reference casesSchema wordQuery)
      (F32.rational.fromDocumentsWithInitialScore "x" (List.replicate (n + 1) ("a", ""))).1 := by
    obtain ⟨cursor, -, hquery⟩ := queryAs_of_input hinput'
    have hscores := lexicalScores_of_corpus .empty hinput' rfl (hone'.cachedCorpus hn hinput')
    show (db.queryAs .reference .none _ .empty _ _).2 = _
    rw [hquery, hscores]
    rfl
  -- It has no scores for the word.
  have hwarm : (db.lexicalScores .reference s.cache input wordQuery).1 = [] := by
    have hscores := lexicalScores_of_corpus s.cache hinput rfl (hone.cachedCorpus hn hinput)
    have hget : (s.cache.get (db.lexicalCacheKey .reference casesSchema wordQuery)).1 = some
        (F32.rational.fromDocumentsWithInitialScore "x" (List.replicate (n + 1) ("a", ""))).1 := by
      rw [hcache]
      exact LexicalCorpusCache.get_insert_nil _ _ _
    rcases hfound : s.cache.get (db.lexicalCacheKey .reference casesSchema wordQuery)
      with ⟨corpus, cache⟩
    rw [hfound] at hget hscores
    obtain rfl : corpus = _ := hget
    have hnone : F32.rational.scoreQueryWithStats
        (F32.rational.fromDocumentsWithInitialScore "x" (List.replicate (n + 1) ("a", ""))).1 "x" =
          [] := by
      rw [F32.scoreQuery_prepared]
      refine F32.fromDocuments_without_terms _ (fun doc hdoc => ?_) _
      rw [List.eq_of_mem_replicate hdoc]
      rfl
    exact (congrArg Prod.fst hscores).trans hnone
  have hcold : (db.lexicalScores .reference .empty input wordQuery).1 =
      (F32.rational.fromDocumentsWithInitialScore "x" (List.replicate (n + 1) ("s", "x"))).2 := by
    have hscores := lexicalScores_of_corpus .empty hinput rfl (hone.cachedCorpus hn hinput)
    exact congrArg Prod.fst hscores
  obtain ⟨cursor, hcursor, hquery⟩ := queryAs_of_input hinput
  obtain rfl : (⟨0, db.manifest.latestEpoch⟩ : CursorState) = cursor := Except.ok.inj hcursor
  intro hsame
  change (db.queryAs .reference .none _ s.cache _ _).1 =
    (db.queryAs .reference .none _ .empty _ _).1 at hsame
  rw [hquery, hquery] at hsame
  change db.queryPage .reference .none _ _ _ _ _
    (db.lexicalScores .reference s.cache input wordQuery).1 =
    db.queryPage .reference .none _ _ _ _ _
      (db.lexicalScores .reference .empty input wordQuery).1 at hsame
  rw [hwarm, hcold] at hsame
  obtain ⟨output, hpage, row, hrow, hlexical⟩ :=
    (hone.scoredAlone hscored).queryPage .reference .none db
    .unsigned (cursorScopeForQuery .reference (wordCall "u").actor wordQuery (max wordQuery.topK 1))
      rfl
    db.manifest.latestEpoch
  exact hlexical (lexical_eq_none (hsame.trans hpage) hrow)

/-- The handle with the two cases, published until each user reads enough records for the cache. -/
def copiedDb : Db := (casesDb separateCases).withCopies .reference 2047

/-- **A corpus of another user**: after a query of `v`, the query of `u` finds the corpus of `v`
under its key, and no longer ranks by text the one case that `u` may see. -/
theorem other_users_corpus :
    Reachable .reference "db" copiedDb ∧
      let s := (Reader.start copiedDb).run .reference .reference .none [.query (wordCall "v")]
      s.db.answer .reference .none s.cache (wordCall "u") ≠
        s.db.answer .reference .none .empty (wordCall "u") := by
  obtain ⟨hsegments, hobjects, hu, hv, hschema⟩ := separateCases_shows
  have hnone : ∀ k, (casesDb separateCases).disk.segments[copyName k]? = none := by
    intro k
    rw [Std.ExtTreeMap.isEmpty_iff.1 hobjects]
    exact Std.ExtTreeMap.getElem?_empty
  have hcopied : Reachable .reference "db" copiedDb ∧
      HasCopies IndexFiles.none (casesDb separateCases) 2047 copiedDb :=
    hasCopies_withCopies (fun _ => rfl) (reachable_casesDb separateCases) hsegments hnone 2047
  obtain ⟨hreach, hcopies⟩ := hcopied
  refine ⟨hreach, ?_⟩
  obtain ⟨input, hinput, hone⟩ := queryInput_copies hcopies hschema hu
  obtain ⟨input', hinput', hone'⟩ := queryInput_copies hcopies hschema hv
  refine answer_after_other (by decide) hinput hone hinput' hone' ?_
  exact F32.rational.exists_scored_replicate (by decide) "s" (by decide) (by decide +kernel)

end TraceDB
