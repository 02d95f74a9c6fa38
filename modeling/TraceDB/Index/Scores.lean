import TraceDB.Index.Search
import TraceDB.Query.Samples

/-!
# Whose vector a score comes from

The entries of a segment's vector index do not say which table and tenant they belong to.

* `lastEntry_buildVectorIndex` : a record id and a version stand for the last record of the segment
  that has them and a vector, of whatever table and tenant.
* `ownScores_iff` : the scores for one table and tenant are those of its own vectors just when no
  such record stands in for one of its own with another similarity.
* `borrowed_score` : a record that is scored by the vector of another tenant.
-/

namespace TraceDB

variable {S : Type}

/-! ### Entries and records -/

/-- The last record with a record id, a version and a vector in a field. -/
def lastWithVector (records : List (IndexRecord S)) (field recordId : String) (versionId : ℕ) :
    Option (IndexRecord S) :=
  records.findLast? fun record =>
    record.recordId = recordId ∧ record.versionId = versionId ∧ (record.vectors[field]?).isSome

theorem lastWithVector_spec {records : List (IndexRecord S)} {field recordId : String}
    {versionId : ℕ} {record : IndexRecord S}
    (h : lastWithVector records field recordId versionId = some record) :
    record ∈ records ∧ record.recordId = recordId ∧ record.versionId = versionId := by
  have hprop := List.prop_of_findLast? h
  simp only [decide_eq_true_eq] at hprop
  exact ⟨List.mem_of_findLast? h, hprop.1, hprop.2.1⟩

theorem isLE_entryOrder_trans (a b c : VectorIndexEntry S) (hab : (entryOrder a b).isLE)
    (hbc : (entryOrder b c).isLE) : (entryOrder a c).isLE := by
  have htrans : Std.TransCmp (entryOrder (S := S)) := by
    unfold entryOrder fieldEntryOrder
    infer_instance
  exact htrans.isLE_trans hab hbc

theorem isLE_entryOrder_total (a b : VectorIndexEntry S) :
    (entryOrder a b).isLE ∨ (entryOrder b a).isLE := by
  have horiented : Std.OrientedCmp (entryOrder (S := S)) := by
    unfold entryOrder fieldEntryOrder
    infer_instance
  rw [horiented.eq_swap]
  cases entryOrder b a <;> decide

/-- The entry of a record in a field. -/
theorem findLast?_vectorEntries (record : IndexRecord S) (field recordId : String) (versionId : ℕ) :
    (record.vectorEntries.findLast? fun entry =>
        entry.field = field ∧ entry.recordId = recordId ∧ entry.versionId = versionId) =
      if record.recordId = recordId ∧ record.versionId = versionId then
        record.vectors[field]?.map fun vector => ⟨recordId, versionId, field, vector⟩
      else none := by
  cases hfound : record.vectorEntries.findLast? fun entry =>
      entry.field = field ∧ entry.recordId = recordId ∧ entry.versionId = versionId with
  | none =>
    split_ifs with hpair
    · cases hvector : record.vectors[field]? with
      | none => rfl
      | some vector =>
        have hmem : (⟨recordId, versionId, field, vector⟩ : VectorIndexEntry S) ∈
            record.vectorEntries :=
          List.mem_map.2 ⟨(field, vector), SortedMap.mem_toList.2 hvector, by rw [hpair.1, hpair.2]⟩
        simpa using List.findLast?_eq_none.1 hfound _ hmem
    · rfl
  | some entry =>
    have hprop := List.prop_of_findLast? hfound
    simp only [decide_eq_true_eq] at hprop
    obtain ⟨⟨field', vector⟩, hmem, rfl⟩ := List.mem_map.1 (List.mem_of_findLast? hfound)
    obtain ⟨rfl, hid, hversion⟩ := hprop
    have hvector : record.vectors[field']? = some vector := SortedMap.mem_toList.1 hmem
    rw [if_pos ⟨hid, hversion⟩, hvector, ← hid, ← hversion]
    rfl

/-- **The entry for a record id and a version** is that of the last record with them. -/
theorem lastEntry_buildVectorIndex (ops : F32 S) (segmentId : String)
    (generation manifestGeneration : ℕ) (checksum : Digest) (records : List (IndexRecord S))
    (field recordId : String) (versionId : ℕ) :
    lastEntry (buildVectorIndex ops segmentId generation manifestGeneration checksum
      records).entries
        field recordId versionId =
      (lastWithVector records field recordId versionId).bind fun record =>
        record.vectors[field]?.map fun vector => ⟨recordId, versionId, field, vector⟩ := by
  rw [lastEntry, List.findLast?_eq_getLast?]
  show ((sortBy entryOrder (records.flatMap IndexRecord.vectorEntries)).filter _).getLast? = _
  rw [filter_sortBy isLE_entryOrder_trans isLE_entryOrder_total, ← List.findLast?_eq_getLast?]
  · induction records using List.reverseRecOn with
    | nil => rfl
    | append_singleton records record ih =>
      rw [List.flatMap_append, List.flatMap_singleton, List.findLast?_append, ih,
        findLast?_vectorEntries]
      simp only [lastWithVector, List.findLast?_append_singleton, decide_eq_true_eq]
      by_cases hpair : record.recordId = recordId ∧ record.versionId = versionId
      · cases hvector : record.vectors[field]? with
        | none => simp
        | some vector => simp [hpair.1, hpair.2, hvector]
      · have hnot : ¬ (record.recordId = recordId ∧ record.versionId = versionId ∧
            (record.vectors[field]?).isSome = true) := fun h => hpair ⟨h.1, h.2.1⟩
        rw [if_neg hpair, if_neg hnot]
        rfl
  · intro a _ ha b _ hb
    simp only [decide_eq_true_eq] at ha hb
    obtain ⟨hfield, hid, hversion⟩ := ha
    obtain ⟨hfield', hid', hversion'⟩ := hb
    simp [entryOrder, fieldEntryOrder, compareLex, compareOn, hfield, hfield', hid, hid', hversion,
      hversion']

/-! ### The scores of one table and tenant -/

/-- The similarity of a record's own vector to a query. -/
def IndexRecord.similarity (record : IndexRecord S) (ops : F32 S) (field : String)
    (query : List S) :
    Option S :=
  record.vectors[field]?.bind (ops.cosineSimilarity query)

/-- Each score that a search among records of one table and tenant returns is the similarity of the
record's own vector. -/
def OwnScores (ops : F32 S) (artifact : VectorIndexArtifact S) (records : List (IndexRecord S))
    (table tenantId field : String) (query : List S) : Prop :=
  ∀ limit allowed,
    (∀ pair ∈ allowed, ∃ record ∈ records, record.table = table ∧ record.tenantId = tenantId ∧
      (record.recordId, record.versionId) = pair) →
    ∀ score ∈ (artifact.search ops field query limit allowed).1, ∀ record ∈ records,
      record.table = table → record.tenantId = tenantId → record.recordId = score.recordId →
      record.versionId = score.versionId → record.similarity ops field query = some score.score

/-- A record is scored as the last record of its id and version that has a vector. -/
theorem scoresEntry_buildVectorIndex {ops : F32 S} {segmentId : String}
    {generation manifestGeneration : ℕ} {checksum : Digest} {records : List (IndexRecord S)}
    {field : String} {query : List S} {score : VectorScore S} :
    ScoresEntry ops
        (buildVectorIndex ops segmentId generation manifestGeneration checksum records).entries
          field
        query score ↔
      ∃ last, lastWithVector records field score.recordId score.versionId = some last ∧
        last.similarity ops field query = some score.score := by
  simp only [ScoresEntry, lastEntry_buildVectorIndex, Option.bind_eq_some_iff,
    Option.map_eq_some_iff, IndexRecord.similarity]
  constructor
  · rintro ⟨entry, ⟨last, hlast, vector, hvector, rfl⟩, hscore⟩
    exact ⟨last, hlast, vector, hvector, hscore⟩
  · rintro ⟨last, hlast, vector, hvector, hscore⟩
    exact ⟨_, ⟨last, hlast, vector, hvector, rfl⟩, hscore⟩

/-- A search with enough room, among one record, returns the similarity of the last one. -/
theorem search_finds {ops : F32 S} {records : List (IndexRecord S)}
    (hsize : (records.flatMap IndexRecord.vectorEntries).length ≤ usizeMax) {field : String}
    {query : List S} {score : VectorScore S} {last : IndexRecord S}
    (hlast : lastWithVector records field score.recordId score.versionId = some last)
    (hscore : last.similarity ops field query = some score.score) (segmentId : String)
    (generation manifestGeneration : ℕ) (checksum : Digest) :
    ∃ limit, score ∈ ((buildVectorIndex ops segmentId generation manifestGeneration checksum
      records).search ops field query limit [(score.recordId, score.versionId)]).1 := by
  refine ⟨_, search_complete (Nat.lt_succ_self _) ?_ (List.mem_singleton_self _)
    (scoresEntry_buildVectorIndex.2 ⟨last, hlast, hscore⟩)⟩
  refine (SortedMap.size_indexBy_le _ _).trans ((List.length_filter_le _ _).trans ?_)
  exact (sortBy_perm entryOrder _).length_eq.trans_le hsize

/-- **Scores come from the records' own vectors** just when, for every record of the table and
tenant, the last record of the segment with its id and version that has a vector is as similar to
the query as the record's own vector, or cannot be compared with the query. -/
theorem ownScores_iff (ops : F32 S) (segmentId : String) (generation manifestGeneration : ℕ)
    (checksum : Digest) (records : List (IndexRecord S))
    (hsize : (records.flatMap IndexRecord.vectorEntries).length ≤ usizeMax)
    (table tenantId field : String) (query : List S) :
    OwnScores ops (buildVectorIndex ops segmentId generation manifestGeneration checksum records)
      records
        table tenantId field query ↔
      ∀ record ∈ records, record.table = table → record.tenantId = tenantId →
        ∀ last, lastWithVector records field record.recordId record.versionId = some last →
          last.similarity ops field query = none ∨
            record.similarity ops field query = last.similarity ops field query := by
  constructor
  · intro hown record hrecord htable htenant last hlast
    cases hscore : last.similarity ops field query with
    | none => exact .inl rfl
    | some value =>
      -- A search among this record alone finds the last one.
      obtain ⟨limit, hfound⟩ := @search_finds _ ops records hsize field query
        ⟨record.recordId, record.versionId, value⟩ last hlast hscore segmentId generation
        manifestGeneration checksum
      refine .inr (hown limit [(record.recordId, record.versionId)]
        (fun pair hpair => ?_) _ hfound record
        hrecord htable htenant rfl rfl)
      exact ⟨record, hrecord, htable, htenant, (List.mem_singleton.1 hpair).symm⟩
  · intro hcond limit allowed _ score hscore record hrecord htable htenant hid hversion
    obtain ⟨last, hlast, hvalue⟩ := scoresEntry_buildVectorIndex.1 (search_sound hscore).2
    rw [← hid, ← hversion] at hlast
    rcases hcond record hrecord htable htenant last hlast with hnone | hsame
    · rw [hnone] at hvalue
      cases hvalue
    · exact hsame.trans hvalue

/-- A document with an embedding of one number. -/
def vectorDoc (tenantId : String) (x : ℚ) : IndexRecord ℚ where
  table := "docs"
  recordId := "a"
  tenantId := tenantId
  versionId := 2
  fields := ∅
  text := ∅
  vectors := (∅ : Std.ExtTreeMap String (List ℚ) compare).insert "embedding" [x]

/-- The document of one tenant alone. -/
theorem ownScores_alone :
    OwnScores .rational (buildVectorIndex .rational "s1" 1 2 Digest.zero [vectorDoc "t" 1])
      [vectorDoc "t" 1] "docs" "t" "embedding" [1] := by
  refine (ownScores_iff .rational "s1" 1 2 Digest.zero [vectorDoc "t" 1]
    (by decide +kernel) "docs" "t"
    "embedding" [1]).2 fun record hrecord _ _ last hlast => .inr ?_
  rw [List.mem_singleton.1 hrecord, List.mem_singleton.1 (lastWithVector_spec hlast).1]

/-- **A score of another tenant's vector**: two tenants put a document with the same id in one
commit, and the segment holds both.  For tenant `t`, whose vector is the query, the index returns
the similarity of the vector of tenant `u`. -/
theorem borrowed_score :
    ¬ OwnScores .rational
      (buildVectorIndex .rational "s1" 1 2 Digest.zero [vectorDoc "t" 1, vectorDoc "u" (-1)])
      [vectorDoc "t" 1, vectorDoc "u" (-1)] "docs" "t" "embedding" [1] := by
  intro hown
  have hlast : (lastWithVector [vectorDoc "t" 1, vectorDoc "u" (-1)] "embedding" "a" 2).bind
      (fun last => last.similarity .rational "embedding" [1]) = some (-1) := by decide +kernel
  obtain ⟨last, hlast, hscore⟩ := Option.bind_eq_some_iff.1 hlast
  obtain ⟨limit, hfound⟩ := @search_finds _ .rational [vectorDoc "t" 1, vectorDoc "u" (-1)]
    (by decide +kernel) "embedding" [1] ⟨"a", 2, -1⟩ last hlast hscore "s1" 1 2 Digest.zero
  have hborrowed := hown limit [("a", 2)]
    (fun pair hpair => ⟨vectorDoc "t" 1, List.mem_cons_self, rfl, rfl,
      (List.mem_singleton.1 hpair).symm⟩) _ hfound
        (vectorDoc "t" 1) List.mem_cons_self rfl rfl rfl rfl
  have hone : (vectorDoc "t" 1).similarity .rational "embedding" [1] = some 1 := by decide +kernel
  rw [hone] at hborrowed
  exact absurd (Option.some.inj hborrowed) (by decide)

end TraceDB
