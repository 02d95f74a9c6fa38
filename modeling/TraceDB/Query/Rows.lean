import TraceDB.Query.Hybrid

/-!
# The rows of a query

A row is made from a ranked candidate: the hot record with its id, or else the segment record.  The
rows of a page are those of the ranking, in its order.

* `sublist_queryPage`, `nodup_materialize` : no id comes twice.
* `lexical_eq_none` : without scores of the text, no row has a lexical score.
* `ScoredAlone.queryPage` : a record that stands alone and whose text has a score is returned with
  one.
-/

namespace TraceDB

variable {S : Type} {Q : QueryFormat S} {index : IndexFiles S} {db : Db}

/-! ### Rows -/

/-- Where a row comes from. -/
theorem materialize_cases {input : QueryInput} {epoch : Epoch} {candidate : FusedCandidate S}
    {row : QueryRow S} (h : db.materialize Q input epoch candidate = some row) :
    (∃ record ∈ input.visible, record.header.recordId = candidate.recordId ∧
        row = queryRowFromStored Q record candidate) ∨
      ((∀ record ∈ input.visible, record.header.recordId ≠ candidate.recordId) ∧
        ∃ record ∈ input.sealedRecords,
          db.store.isTombstonedAt record.table record.tenantId record.recordId epoch = false ∧
          record.recordId = candidate.recordId ∧ row = queryRowFromSegment Q record candidate) := by
  unfold Db.materialize at h
  dsimp only at h
  split_ifs at h
  cases hstored : input.stored? candidate.recordId with
  | some record =>
    rw [hstored] at h
    have hid := List.prop_of_findLast? hstored
    exact .inl ⟨record, List.mem_of_findLast? hstored, of_decide_eq_true hid,
      (Option.some.inj h).symm⟩
  | none =>
    rw [hstored] at h
    obtain ⟨record, hfind, hrow⟩ := Option.map_eq_some_iff.1 h
    obtain ⟨hmem, hlive⟩ := List.mem_filter.1 (List.mem_of_findLast? hfind)
    have hid := List.prop_of_findLast? hfind
    refine .inr ⟨fun other hother heq => ?_, record, hmem, by simpa using hlive,
      of_decide_eq_true hid, hrow.symm⟩
    exact List.findLast?_eq_none.1 hstored other hother (decide_eq_true heq)

theorem recordId_of_materialize {input : QueryInput} {epoch : Epoch} {candidate : FusedCandidate S}
    {row : QueryRow S} (h : db.materialize Q input epoch candidate = some row) :
    row.recordId = candidate.recordId := by
  rcases materialize_cases h with ⟨record, -, hid, rfl⟩ | ⟨-, record, -, -, hid, rfl⟩
  · exact hid
  · exact hid

/-- The rows of a ranking. -/
theorem nodup_materialize {input : QueryInput} {epoch : Epoch} {fused : List (FusedCandidate S)}
    (h : (fused.map (·.recordId)).Nodup) :
    ((fused.filterMap (db.materialize Q input epoch)).map (·.recordId)).Nodup := by
  induction fused with
  | nil => exact List.nodup_nil
  | cons candidate fused ih =>
    obtain ⟨hnot, hrest⟩ := List.nodup_cons.1 h
    rw [List.filterMap_cons]
    cases hrow : db.materialize Q input epoch candidate with
    | none => exact ih hrest
    | some row =>
      refine List.nodup_cons.2 ⟨fun hmem => hnot ?_, ih hrest⟩
      obtain ⟨other, hother, hid⟩ := List.mem_map.1 hmem
      obtain ⟨candidate', hcandidate', hrow'⟩ := List.mem_filterMap.1 hother
      exact List.mem_map.2 ⟨candidate', hcandidate', (recordId_of_materialize hrow').symm.trans
        (hid.trans (recordId_of_materialize hrow))⟩

theorem nodup_rankedCandidates {input : QueryInput} {query : HybridQuery S}
    {scores : List (String × S)} {budget : ℕ} {fused : List (FusedCandidate S)}
    (h : db.rankedCandidates Q index input query scores budget = .ok fused) :
    (fused.map (·.recordId)).Nodup := by
  simp only [Db.rankedCandidates, Except.bind_eq_ok_iff] at h
  obtain ⟨paths, -, h⟩ := h
  obtain rfl := Except.ok.inj h
  exact ((Q.rank_perm _ _ _).map _).nodup_iff.2 (Q.nodup_fuseQueryStreams _)

/-- The rows of a page are rows of the ranking, in its order. -/
theorem sublist_queryPage {env : CursorEnv} {input : QueryInput} {query : HybridQuery S}
    {cursor : CursorState} {scope : CursorScope} {scores : List (String × S)}
    {output : QueryOutput S}
    (h : db.queryPage Q index env input query cursor scope scores = .ok output) :
    ∃ fused : List (FusedCandidate S), (fused.map (·.recordId)).Nodup ∧
      output.results.Sublist (fused.filterMap (db.materialize Q input cursor.snapshotEpoch)) := by
  simp only [Db.queryPage, Except.bind_eq_ok_iff] at h
  obtain ⟨fused, hfused, next, -, h⟩ := h
  obtain rfl := Except.ok.inj h
  exact ⟨fused, nodup_rankedCandidates hfused, ((List.take_sublist _ _).trans
    (List.drop_sublist _ _)).trans (List.take_sublist _ _)⟩

/-- What a successful query did. -/
theorem queryAs_cases {env : CursorEnv} {cache cache' : LexicalCorpusCache S} {actor : ActorContext}
    {query : HybridQuery S} {output : QueryOutput S}
    (h : db.queryAs Q index env cache actor query = (.ok output, cache')) :
    ∃ cursor, db.queryCursor Q env actor query = .ok cursor ∧
      (output.results = [] ∨ ∃ schema sealedRecords scores, db.validateQuery query = .ok schema ∧
        db.querySealed Q index query cursor.snapshotEpoch actor = .ok sealedRecords ∧
        db.queryPage Q index env
          ⟨schema, db.queryVisible Q query cursor.snapshotEpoch actor, sealedRecords⟩ query cursor
          (cursorScopeForQuery Q actor query (max query.topK 1)) scores = .ok output) := by
  unfold Db.queryAs at h
  cases hcursor : db.queryCursor Q env actor query with
  | error e =>
    rw [hcursor] at h
    cases (Prod.mk.inj h).1
  | ok cursor =>
    rw [hcursor] at h
    refine ⟨cursor, rfl, ?_⟩
    simp only [Db.queryInternal] at h
    cases hvalid : db.validateQuery query with
    | error e =>
      rw [hvalid] at h
      cases (Prod.mk.inj h).1
    | ok schema =>
      rw [hvalid] at h
      dsimp only at h
      split_ifs at h
      · obtain rfl := Except.ok.inj (Prod.mk.inj h).1
        exact .inl rfl
      · cases hsealed : db.querySealed Q index query cursor.snapshotEpoch actor with
        | error e =>
          rw [hsealed] at h
          cases (Prod.mk.inj h).1
        | ok sealedRecords =>
          rw [hsealed] at h
          exact .inr ⟨schema, sealedRecords, _, rfl, rfl, (Prod.mk.inj h).1⟩

/-! ### Lexical scores of rows -/

variable {input : QueryInput} {query : HybridQuery S} {scores : List (String × S)}
  {visibility : List String} {budget : ℕ} {fused : List (FusedCandidate S)}

theorem mem_open {path : MemoryAccessPath S} {candidate : Candidate S}
    (h : candidate ∈ path.open query visibility budget) :
    candidate ∈ path.candidates ∧ candidate.recordId ∈ visibility := by
  obtain ⟨hpath, hkept⟩ := List.mem_filter.1 (List.mem_of_mem_take h)
  exact ⟨hpath, of_decide_eq_true (Bool.and_eq_true_iff.1 hkept).2⟩

/-- The candidates of the lexical path are records with a score. -/
theorem mem_lexicalCandidates {candidate : Candidate S}
    (h : candidate ∈ Db.lexicalCandidates Q input scores) :
    ∃ score, (candidate.recordId, score) ∈ scores := by
  obtain ⟨⟨id, score⟩, hscored, hsome⟩ := List.mem_filterMap.1 h
  have hmem := (sortBy_perm _ _).mem_iff.1 hscored
  refine ⟨score, ?_⟩
  dsimp only at hsome
  split at hsome
  · rename_i record hstored
    obtain rfl := Option.some.inj hsome
    have hid : record.header.recordId = id := of_decide_eq_true (List.prop_of_findLast? hstored :)
    exact hid.symm ▸ hmem
  · obtain ⟨record, hsealed, rfl⟩ := Option.map_eq_some_iff.1 hsome
    have hid : record.recordId = id := of_decide_eq_true (List.prop_of_findLast? hsealed :)
    exact hid.symm ▸ hmem

/-- The records of the lexical stream of a query. -/
theorem lexicalIds_accessPaths {limit : ℕ} {paths : List (MemoryAccessPath S)}
    (h : db.queryAccessPaths Q index input query scores limit = .ok paths)
    (visibility : List String) (budget : ℕ) :
    F32.lexicalIds (paths.map fun path =>
        Q.rankedStream path.id (path.open query visibility budget)) =
      ((MemoryAccessPath.mk .lexical (if query.text.isSome then Db.lexicalCandidates Q input scores
        else [])).open query visibility budget).map (·.recordId) := by
  rw [Db.queryAccessPaths, Except.bind_eq_ok_iff] at h
  obtain ⟨vector, -, h⟩ := h
  obtain rfl := Except.ok.inj h
  cases query.graphSeed <;> cases query.temporalAsOf <;>
    simp [F32.lexicalIds, F32.streamIds, F32.rankedStream]

/-- A ranked candidate is a record of the input. -/
theorem mem_rankedCandidates (h : db.rankedCandidates Q index input query scores budget = .ok fused)
    {candidate : FusedCandidate S} (hcandidate : candidate ∈ fused) :
    candidate.recordId ∈ input.visible.map (·.header.recordId) ++
      input.sealedRecords.map (·.recordId) := by
  rw [Db.rankedCandidates, Except.bind_eq_ok_iff] at h
  obtain ⟨paths, -, h⟩ := h
  obtain rfl := Except.ok.inj h
  have hfused := (Q.rank_perm _ _ _).mem_iff.1 hcandidate
  obtain ⟨stream, hstream, hid⟩ := List.mem_flatMap.1 (Q.mem_fuseQueryStreams hfused)
  obtain ⟨path, -, rfl⟩ := List.mem_map.1 hstream
  obtain ⟨entry, hentry, hsame⟩ := List.mem_map.1 hid
  obtain ⟨opened, hopened, rfl⟩ := List.mem_map.1 hentry
  exact hsame ▸ (mem_open hopened).2

/-- A ranked candidate with a lexical score is a record whose text has a score. -/
theorem scored_of_lexical (h : db.rankedCandidates Q index input query scores budget = .ok fused)
    {candidate : FusedCandidate S} (hcandidate : candidate ∈ fused)
    (hlexical : candidate.lexical.isSome = true) :
    ∃ score, (candidate.recordId, score) ∈ scores := by
  rw [Db.rankedCandidates, Except.bind_eq_ok_iff] at h
  obtain ⟨paths, hpaths, h⟩ := h
  obtain rfl := Except.ok.inj h
  rw [Q.lexical_fuseQueryStreams ((Q.rank_perm _ _ _).mem_iff.1 hcandidate),
    lexicalIds_accessPaths hpaths] at hlexical
  obtain ⟨opened, hopened, hid⟩ := List.mem_map.1 hlexical
  have hpath := (mem_open hopened).1
  rw [← hid]
  dsimp only at hpath
  split_ifs at hpath
  · exact mem_lexicalCandidates hpath
  · cases hpath

/-- No row has a lexical score when no text has one. -/
theorem lexical_eq_none {env : CursorEnv} {cursor : CursorState} {scope : CursorScope}
    {output : QueryOutput S}
    (h : db.queryPage Q index env input query cursor scope [] = .ok output) {row : QueryRow S}
    (hrow : row ∈ output.results) : row.score.lexical = none := by
  simp only [Db.queryPage, Except.bind_eq_ok_iff] at h
  obtain ⟨fused, hfused, next, -, h⟩ := h
  obtain rfl := Except.ok.inj h
  have hmem := List.mem_of_mem_take (List.mem_of_mem_drop (List.mem_of_mem_take hrow))
  obtain ⟨candidate, hcandidate, hmaterialize⟩ := List.mem_filterMap.1 hmem
  have hscore : row.score.lexical = candidate.lexical := by
    rcases materialize_cases hmaterialize with ⟨record, -, -, rfl⟩ | ⟨-, record, -, -, -, rfl⟩
    · rfl
    · rfl
  rw [hscore, ← Option.not_isSome_iff_eq_none]
  intro hlexical
  obtain ⟨score, hscored⟩ := scored_of_lexical hfused hcandidate hlexical
  cases hscored

/-- A query with a text and without a vector whose records all have one id, where a text with that
id has a score. -/
structure ScoredAlone (input : QueryInput) (query : HybridQuery S) (scores : List (String × S))
    (id : String) : Prop where
  vector : query.vector = none
  text : (query.text.any fun text => !Text.isBlank text) = true
  ids : ∀ other ∈ input.visible.map (·.header.recordId) ++ input.sealedRecords.map (·.recordId),
    other = id
  stored : ∃ record, input.stored? id = some record
  scored : ∃ score, (id, score) ∈ scores

namespace ScoredAlone

variable {id : String}

/-- The id is one that the query may show. -/
theorem visible (h : ScoredAlone input query scores id) :
    id ∈ input.visible.map (·.header.recordId) ++ input.sealedRecords.map (·.recordId) := by
  obtain ⟨record, hstored⟩ := h.stored
  have hid : record.header.recordId = id := of_decide_eq_true (List.prop_of_findLast? hstored :)
  exact List.mem_append_left _ (List.mem_map.2 ⟨record, List.mem_of_findLast? hstored, hid⟩)

/-- The lexical stream has a candidate. -/
theorem exists_mem_open (h : ScoredAlone input query scores id) (hvisible : id ∈ visibility)
    (hbudget : 0 < budget) :
    ∃ candidate, candidate ∈ (MemoryAccessPath.mk .lexical (if query.text.isSome then
      Db.lexicalCandidates Q input scores else [])).open query visibility budget := by
  obtain ⟨record, hstored⟩ := h.stored
  obtain ⟨score, hscored⟩ := h.scored
  have hid : record.header.recordId = id := of_decide_eq_true (List.prop_of_findLast? hstored :)
  have hsome : query.text.isSome = true := by
    obtain ⟨text, htext, -⟩ := (Option.any_eq_true _ _).1 h.text
    rw [htext]
    rfl
  have hcandidate : (⟨record.header.recordId, record.header.versionId,
      { ScoreComponents.final score with lexical := some score }⟩ : Candidate S) ∈
        Db.lexicalCandidates Q input scores := by
    refine List.mem_filterMap.2 ⟨(id, score), (sortBy_perm _ _).mem_iff.2 hscored, ?_⟩
    dsimp only
    rw [hstored]
  have hkept : (Db.lexicalCandidates Q input scores).filter (fun candidate =>
      (query.text.any fun text => !Text.isBlank text) &&
        decide (candidate.recordId ∈ visibility)) ≠ [] := by
    refine List.ne_nil_of_mem (List.mem_filter.2 ⟨hcandidate, ?_⟩)
    rw [h.text, hid, decide_eq_true hvisible]
    rfl
  obtain ⟨first, rest, hlist⟩ := List.exists_cons_of_ne_nil hkept
  obtain ⟨n, rfl⟩ := Nat.exists_eq_add_one_of_ne_zero hbudget.ne'
  refine ⟨first, ?_⟩
  rw [if_pos hsome, MemoryAccessPath.open]
  dsimp only
  rw [hlist, List.take_succ_cons]
  exact List.mem_cons_self

/-- The ranking has one candidate, with a lexical score. -/
theorem rankedCandidates (h : ScoredAlone input query scores id) (Q : QueryFormat S)
    (index : IndexFiles S) (db : Db) (hbudget : 0 < budget) :
    ∃ candidate, db.rankedCandidates Q index input query scores budget = .ok [candidate] ∧
      candidate.recordId = id ∧ candidate.lexical.isSome = true := by
  obtain ⟨paths, hpaths⟩ : ∃ paths, db.queryAccessPaths Q index input query scores
      (if query.hasEvidence then budget else usizeMax) = .ok paths := by
    simp [Db.queryAccessPaths, Db.vectorCandidates, h.vector]
  obtain ⟨fused, hfused⟩ : ∃ fused,
      db.rankedCandidates Q index input query scores budget = .ok fused := by
    rw [Db.rankedCandidates, hpaths]
    exact ⟨_, rfl⟩
  have hsame : ∀ candidate ∈ fused, candidate.recordId = id := fun candidate hcandidate =>
    h.ids _ (mem_rankedCandidates hfused hcandidate)
  obtain ⟨candidate, hcandidate, hlexical⟩ : ∃ candidate ∈ fused,
      candidate.lexical.isSome = true := by
    obtain ⟨opened, hopened⟩ := h.exists_mem_open (Q := Q) h.visible hbudget
    have hids := lexicalIds_accessPaths hpaths (input.visible.map (·.header.recordId) ++
      input.sealedRecords.map (·.recordId)) budget
    have hlexical := hids ▸ List.mem_map_of_mem hopened
    obtain ⟨candidate, hcandidate, hid⟩ := Q.exists_mem_of_lexicalIds hlexical
    rw [Db.rankedCandidates, hpaths] at hfused
    obtain rfl := Except.ok.inj hfused
    refine ⟨candidate, (Q.rank_perm _ _ _).mem_iff.2 hcandidate, ?_⟩
    rw [Q.lexical_fuseQueryStreams hcandidate, hid]
    exact hlexical
  have hnodup := nodup_rankedCandidates hfused
  cases fused with
  | nil => cases hcandidate
  | cons first rest =>
    cases rest with
    | nil =>
      obtain rfl := List.mem_singleton.1 hcandidate
      exact ⟨candidate, hfused, hsame _ hcandidate, hlexical⟩
    | cons second rest =>
      have hfirst := hsame first List.mem_cons_self
      have hsecond := hsame second (List.mem_cons_of_mem _ List.mem_cons_self)
      simp [hfirst, hsecond] at hnodup

/-- The first page of the query has a row with a lexical score. -/
theorem queryPage (h : ScoredAlone input query scores id) (Q : QueryFormat S) (index : IndexFiles S)
    (db : Db) (env : CursorEnv) (scope : CursorScope) (htop : query.topK = 1) (epoch : Epoch) :
    ∃ output, db.queryPage Q index env input query ⟨0, epoch⟩ scope scores = .ok output ∧
      ∃ row ∈ output.results, row.score.lexical ≠ none := by
  have hend : saturatingAddUsize 0 1 = 1 := by decide
  have hwindow : saturatingAddUsize 1 1 = 2 := by decide
  have hbudget : max (max (min (2 * 4) usizeMax) 2) 1 = 8 := by decide
  obtain ⟨candidate, hranked, hid, hlexical⟩ := h.rankedCandidates Q index db (by decide : 0 < 8)
  obtain ⟨record, hstored⟩ := h.stored
  have hrow : db.materialize Q input epoch candidate =
      some (queryRowFromStored Q record candidate) := by
    have hvisible : candidate.recordId ∈ input.visible.map (·.header.recordId) := by
      have hrecord : record.header.recordId = id :=
        of_decide_eq_true (List.prop_of_findLast? hstored :)
      rw [hid, ← hrecord]
      exact List.mem_map_of_mem (List.mem_of_findLast? hstored)
    rw [Db.materialize, if_neg (not_not.2 (List.mem_append_left _ hvisible)), hid, hstored]
  refine ⟨⟨[queryRowFromStored Q record candidate], none⟩, ?_, _, List.mem_singleton_self _, ?_⟩
  · simp only [Db.queryPage, htop, hend, hwindow, hbudget, hranked, Except.ok_bind,
      List.filterMap_cons, hrow]
    rfl
  · exact Option.isSome_iff_ne_none.1 hlexical

end ScoredAlone

end TraceDB
