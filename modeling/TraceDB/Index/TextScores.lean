import TraceDB.Index.Postings
import TraceDB.Query.Samples

/-!
# Scores from a text index

* `mem_scoreText` : the records that a text index scores, with what their scores are computed from;
* `inputs_eq_iff` : when that is what the records as documents have;
* `text_index_scores_iff` : an index scores its records as documents exactly when it cannot mix up
  their fields.
-/

namespace TraceDB

variable {S : Type}

/-! ### Scores of records -/

namespace F32

variable (ops : F32 S) (bm25 : Bm25 S)

/-- `score_corpus`, with the score of a document as a parameter. -/
def scoreCorpusBy (query : String) (docs : List (String × String)) : List (String × S) :=
  let queryTerms := tokenize query
  if queryTerms.isEmpty || docs.isEmpty then []
  else
    let documents := prepareDocuments docs
    let matching := matchingDocs queryTerms documents
    matching.filterMap fun doc =>
      let score := bm25 queryTerms doc.tf doc.docLen docs.length (ops.averageLength documents)
        (documentFrequency matching)
      if ops.gt score (ops.ofRat 0) then some (doc.id, score) else none

theorem scoreCorpusBy_bm25 (query : String) (docs : List (String × String)) :
    ops.scoreCorpusBy ops.bm25FromTermFrequency query docs = ops.scoreCorpus query docs := rfl

end F32

/-- What the score of a document is computed from, besides the query. -/
structure ScoreInputs (S : Type) where
  tf : TermCounts
  docLen : ℕ
  docCount : ℕ
  avgLen : S
  df : TermCounts

/-- The score of a document. -/
def ScoreInputs.score (inputs : ScoreInputs S) (bm25 : Bm25 S) (queryTerms : List String) : S :=
  bm25 queryTerms inputs.tf inputs.docLen inputs.docCount inputs.avgLen inputs.df

/-- The text of a record that is searched: of one field or of all. -/
def IndexRecord.body? (record : IndexRecord S) : Option String → Option String
  | none => some (" ".intercalate (record.text.toList.map Prod.snd))
  | some field => record.text[field]?

/-- The records as documents. -/
def documentsOf (records : List (IndexRecord S)) (textField : Option String) :
    List (String × String) :=
  records.filterMap fun record => (record.body? textField).map fun body => (record.recordId, body)

/-- The tokens of the searched text. -/
def IndexRecord.tokensFor (record : IndexRecord S) (textField : Option String) : List String :=
  ((record.body? textField).map tokenize).getD []

theorem IndexRecord.tokensFor_some (record : IndexRecord S) (field : String) :
    record.tokensFor (some field) = record.tokensIn field := by
  rw [tokensFor, body?, tokensIn]
  cases record.text[field]? <;> rfl

theorem IndexRecord.tokensFor_none (record : IndexRecord S) :
    record.tokensFor none = record.text.toList.flatMap fun text => tokenize text.2 := by
  rw [tokensFor, body?, Option.map_some, Option.getD_some, tokenize_intercalate, List.flatMap_map]

/-- The inputs of a document with these tokens among documents. -/
def corpusInputs (ops : F32 S) (queryTerms : List String) (docs : List (String × String))
    (tokens : List String) : ScoreInputs S where
  tf := termFrequency queryTerms tokens
  docLen := tokens.length
  docCount := docs.length
  avgLen := ops.averageLength (prepareDocuments docs)
  df := documentFrequency (matchingDocs queryTerms (prepareDocuments docs))

/-- The inputs that an index has for a record. -/
def TextIndexArtifact.inputs (artifact : TextIndexArtifact S) (fields terms : List String)
    (record : IndexRecord S) : ScoreInputs S where
  tf := (record.hits fields terms).foldl (fun tf hit => tf.insert hit.1 hit.2.1) ∅
  docLen := ((record.hits fields terms).map fun hit => hit.2.2).getLast?.getD 0
  docCount := artifact.docCount
  avgLen := artifact.avgLen
  df := (artifact.totals fields terms).df

theorem termFrequency_isEmpty_iff {queryTerms tokens : List String} :
    (termFrequency queryTerms tokens).isEmpty = true ↔ ∀ term ∈ queryTerms, term ∉ tokens := by
  rw [Std.ExtTreeMap.isEmpty_iff]
  constructor
  · intro hempty term hterm hmem
    have hget := getElem?_termFrequency queryTerms tokens term
    rw [hempty, if_pos ⟨hterm, hmem⟩] at hget
    simp at hget
  · intro hnone
    refine Std.ExtTreeMap.ext_getElem? fun term => ?_
    rw [getElem?_termFrequency, if_neg fun hboth => hnone term hboth.1 hboth.2]
    simp

theorem mem_termSet {queryTerms : List String} {term : String} :
    term ∈ F32.termSet queryTerms ↔ term ∈ queryTerms := by
  rw [F32.termSet, List.mem_dedup, List.mem_mergeSort]

/-- The documents that match, without their positions. -/
theorem exists_matchingDocs {queryTerms : List String} {documents : List PreparedTextDocument}
    {p : String → ℕ → TermCounts → Prop} :
    (∃ doc ∈ matchingDocs queryTerms documents, p doc.id doc.docLen doc.tf) ↔
      ∃ document ∈ documents, (∃ term ∈ queryTerms, term ∈ document.tokens) ∧
        p document.id document.tokens.length (termFrequency queryTerms document.tokens) := by
  constructor
  · rintro ⟨doc, hdoc, hp⟩
    obtain ⟨entry, hentry, hsome⟩ := List.mem_filterMap.1 hdoc
    dsimp only at hsome
    split_ifs at hsome with hempty
    obtain rfl := Option.some.inj hsome
    refine ⟨entry.1, List.fst_mem_of_mem_zipIdx hentry, ?_, hp⟩
    by_contra hnot
    exact hempty (termFrequency_isEmpty_iff.2 fun term hterm hmem => hnot ⟨term, hterm, hmem⟩)
  · rintro ⟨document, hdocument, ⟨term, hterm, hmem⟩, hp⟩
    obtain ⟨index, hindex⟩ := List.mem_iff_getElem?.1 hdocument
    refine ⟨⟨document.id, document.tokens.length, index, termFrequency queryTerms document.tokens⟩,
      List.mem_filterMap.2 ⟨(document, index), List.mk_mem_zipIdx_iff_getElem?.2 hindex, ?_⟩, hp⟩
    exact if_neg fun hempty => termFrequency_isEmpty_iff.1 hempty term hterm hmem

section
variable {ops : F32 S} {bm25 : Bm25 S} {records : List (IndexRecord S)} {query : String}
  {textField : Option String} {recordId : String} {score : S}

/-- The documents that match are the records that match. -/
theorem exists_documentsOf {queryTerms : List String} {p : String → List String → Prop} :
    (∃ document ∈ prepareDocuments (documentsOf records textField),
      (∃ term ∈ queryTerms, term ∈ document.tokens) ∧ p document.id document.tokens) ↔
      ∃ record ∈ records, (∃ term ∈ queryTerms, term ∈ record.tokensFor textField) ∧
        p record.recordId (record.tokensFor textField) := by
  constructor
  · rintro ⟨document, hdocument, hmatch, hp⟩
    obtain ⟨pair, hpair, rfl⟩ := List.mem_map.1 hdocument
    obtain ⟨record, hrecord, hsome⟩ := List.mem_filterMap.1 hpair
    obtain ⟨body, hbody, rfl⟩ := Option.map_eq_some_iff.1 hsome
    have htokens : record.tokensFor textField = tokenize body := by
      rw [IndexRecord.tokensFor, hbody]
      rfl
    exact ⟨record, hrecord, by rwa [htokens], by rwa [htokens]⟩
  · rintro ⟨record, hrecord, hmatch, hp⟩
    cases hbody : record.body? textField with
    | none =>
      obtain ⟨term, -, hmem⟩ := hmatch
      rw [IndexRecord.tokensFor, hbody] at hmem
      cases hmem
    | some body =>
      have htokens : record.tokensFor textField = tokenize body := by
        rw [IndexRecord.tokensFor, hbody]
        rfl
      rw [htokens] at hmatch hp
      refine ⟨⟨record.recordId, tokenize body⟩, List.mem_map.2 ⟨(record.recordId, body), ?_, rfl⟩,
        hmatch, hp⟩
      exact List.mem_filterMap.2 ⟨record, hrecord, by rw [hbody]; rfl⟩

/-- The scores of documents. -/
theorem mem_scoreCorpusBy :
    (recordId, score) ∈ ops.scoreCorpusBy bm25 query (documentsOf records textField) ↔
    ∃ record ∈ records, (∃ term ∈ tokenize query, term ∈ record.tokensFor textField) ∧
      record.recordId = recordId ∧
      (corpusInputs ops (tokenize query) (documentsOf records textField)
        (record.tokensFor textField)).score bm25 (tokenize query) = score ∧
      ops.gt score (ops.ofRat 0) = true := by
  rw [← exists_documentsOf (p := fun id tokens => id = recordId ∧
    (corpusInputs ops (tokenize query) (documentsOf records textField) tokens).score bm25
      (tokenize query) = score ∧ ops.gt score (ops.ofRat 0) = true), F32.scoreCorpusBy]
  split_ifs with hnone
  · refine iff_of_false (by simp) ?_
    rintro ⟨document, hdocument, ⟨term, hterm, -⟩, -⟩
    rcases Bool.or_eq_true_iff.1 hnone with hquery | hdocs
    · rw [List.isEmpty_iff.1 hquery] at hterm
      cases hterm
    · rw [List.isEmpty_iff.1 hdocs] at hdocument
      cases hdocument
  · rw [List.mem_filterMap]
    refine Iff.trans (exists_congr fun doc => and_congr_right fun _ => ?_)
      (exists_matchingDocs (p := fun id docLen tf => id = recordId ∧
        bm25 (tokenize query) tf docLen (documentsOf records textField).length
          (ops.averageLength (prepareDocuments (documentsOf records textField)))
          (documentFrequency (matchingDocs (tokenize query)
            (prepareDocuments (documentsOf records textField)))) = score ∧
          ops.gt score (ops.ofRat 0) = true))
    constructor
    · intro hscore
      dsimp only at hscore
      split_ifs at hscore with hgt
      obtain ⟨rfl, rfl⟩ := Prod.mk.inj (Option.some.inj hscore)
      exact ⟨rfl, rfl, hgt⟩
    · rintro ⟨rfl, rfl, hgt⟩
      exact if_pos hgt

variable {artifact : TextIndexArtifact S}

/-- The scores of an index. -/
theorem mem_scoreText (hpostings : artifact.postings = records.foldl addPostings ∅)
    (hcount : artifact.docCount = records.length) (hdistinct : DistinctIds records) :
    ⟨recordId, score⟩ ∈ artifact.scoreText ops bm25 query textField ↔
      ∃ record ∈ records,
        record.hits (artifact.fields textField) (F32.termSet (tokenize query)) ≠ [] ∧
        record.recordId = recordId ∧
        (artifact.inputs (artifact.fields textField) (F32.termSet (tokenize query)) record).score
          bm25
          (tokenize query) = score ∧
        ops.gt score (ops.ofRat 0) = true := by
  have hterms : ∀ term ∈ F32.termSet (tokenize query), '\x00' ∉ term.toList :=
    fun term hterm => nul_notMem_tokenize (mem_termSet.1 hterm)
  obtain ⟨hfound, hmissing⟩ :=
    totals_spec (artifact.fields textField) hpostings hterms hdistinct
  rw [TextIndexArtifact.scoreText]
  split_ifs with hnone
  · refine iff_of_false (by simp) ?_
    rintro ⟨record, hrecord, hhits, -⟩
    rcases Bool.or_eq_true_iff.1 hnone with hquery | hdocs
    · obtain ⟨hit, hhit⟩ := List.exists_mem_of_ne_nil _ hhits
      obtain ⟨-, -, hterm, -⟩ := mem_hits.1 hhit
      rw [mem_termSet, List.isEmpty_iff.1 hquery] at hterm
      cases hterm
    · rw [decide_eq_true_iff, hcount, List.length_eq_zero_iff] at hdocs
      rw [hdocs] at hrecord
      cases hrecord
  · rw [(sortBy_perm _ _).mem_iff, List.mem_filterMap]
    constructor
    · rintro ⟨⟨id, tf⟩, hentry, hscore⟩
      rw [Std.ExtTreeMap.mem_toList_iff_getElem?_eq_some] at hentry
      dsimp only at hscore
      split_ifs at hscore with hgt
      obtain ⟨rfl, rfl⟩ := TextScore.mk.inj (Option.some.inj hscore)
      by_cases hid : id ∈ records.map IndexRecord.recordId
      · obtain ⟨record, hrecord, rfl⟩ := List.mem_map.1 hid
        obtain ⟨hcounts, hlength⟩ := hfound record hrecord
        rw [hcounts] at hentry
        split_ifs at hentry with hhits
        obtain rfl := Option.some.inj hentry
        refine ⟨record, hrecord, hhits, rfl, ?_, hgt⟩
        rw [Std.ExtTreeMap.getD_eq_getD_getElem?, hlength]
        rfl
      · rw [hmissing id hid] at hentry
        cases hentry
    · rintro ⟨record, hrecord, hhits, rfl, rfl, hgt⟩
      obtain ⟨hcounts, hlength⟩ := hfound record hrecord
      rw [if_neg hhits] at hcounts
      refine ⟨_, Std.ExtTreeMap.mem_toList_iff_getElem?_eq_some.2 hcounts, ?_⟩
      rw [Std.ExtTreeMap.getD_eq_getD_getElem?, hlength]
      exact if_pos hgt

end

/-! ### When the inputs are the same -/

/-- In how many documents a term of the query occurs, and none of another term. -/
theorem getElem?_documentFrequency_matching {queryTerms : List String}
    (documents : List PreparedTextDocument) (term : String) :
      (documentFrequency (matchingDocs queryTerms documents))[term]? =
      if term ∈ queryTerms ∧ occurrences documents term ≠ [] then
        some (occurrences documents term).length
      else none := by
  split_ifs with hboth
  · exact getElem?_documentFrequency hboth.1 hboth.2
  · rw [documentFrequency, getElem?_tally]
    refine if_neg fun hmem => hboth ?_
    obtain ⟨doc, hdoc, hkey⟩ := List.mem_flatMap.1 hmem
    obtain ⟨entry, hentry, hsome⟩ := List.mem_filterMap.1 hdoc
    dsimp only at hsome
    split_ifs at hsome
    obtain rfl := Option.some.inj hsome
    rw [Std.ExtTreeMap.mem_keys, Std.ExtTreeMap.mem_iff_isSome_getElem?,
      getElem?_termFrequency] at hkey
    split_ifs at hkey with hfound
    · refine ⟨hfound.1, List.ne_nil_of_mem (List.mem_filterMap.2 ⟨entry, hentry, if_pos hfound.2⟩)⟩
    · cases hkey

theorem length_occurrences (documents : List PreparedTextDocument) (term : String) :
    (occurrences documents term).length =
      documents.countP fun document => term ∈ document.tokens := by
  have hfst : documents = documents.zipIdx.map Prod.fst := by simp
  conv_rhs => rw [hfst]
  rw [occurrences, List.length_filterMap_eq_countP, List.countP_map]
  refine List.countP_congr fun entry _ => ?_
  by_cases hmem : term ∈ entry.1.tokens <;> simp [hmem]

section
variable {ops : F32 S} {records : List (IndexRecord S)} {textField : Option String}

theorem length_postingsOf (field term : String) :
    (postingsOf records field term).length = records.countP fun record =>
      term ∈ record.tokensIn field := by
  rw [postingsOf, List.length_filterMap_eq_countP]
  refine List.countP_congr fun record _ => ?_
  by_cases hmem : term ∈ record.tokensIn field <;> simp [hmem]

theorem length_occurrences_documentsOf (term : String) :
    (occurrences (prepareDocuments (documentsOf records textField)) term).length =
      records.countP fun record => term ∈ record.tokensFor textField := by
  rw [length_occurrences, prepareDocuments, List.countP_map, documentsOf, List.countP_filterMap]
  refine List.countP_congr fun record _ => ?_
  rw [IndexRecord.tokensFor]
  cases record.body? textField <;> simp

/-- In how many records a term of the query occurs. -/
theorem getElem?_documentFrequency_documentsOf {queryTerms : List String} (term : String) :
    (documentFrequency
      (matchingDocs queryTerms (prepareDocuments (documentsOf records textField))))[term]? =
      if term ∈ queryTerms ∧ ∃ record ∈ records, term ∈ record.tokensFor textField then
        some (records.countP fun record => term ∈ record.tokensFor textField) else none := by
  have hoccurs : occurrences (prepareDocuments (documentsOf records textField)) term ≠ [] ↔
      ∃ record ∈ records, term ∈ record.tokensFor textField := by
    rw [← List.length_pos_iff, length_occurrences_documentsOf, List.countP_pos_iff]
    simp
  rw [getElem?_documentFrequency_matching]
  simp only [hoccurs, length_occurrences_documentsOf]

/-- Two counts of which one counts what the other does. -/
theorem countP_eq_iff_of_imp {α : Type} {p q : α → Bool} {xs : List α}
    (himp : ∀ x ∈ xs, p x = true → q x = true) :
    xs.countP p = xs.countP q ↔ ∀ x ∈ xs, q x = true → p x = true := by
  constructor
  · intro heq x hx hq
    have hfilter : xs.filter p = (xs.filter q).filter p := by
      rw [List.filter_filter]
      refine List.filter_congr fun y hy => ?_
      cases hp : p y
      · rfl
      · simp [himp y hy hp]
    rw [List.countP_eq_length_filter, List.countP_eq_length_filter, hfilter] at heq
    have hall := List.filter_sublist.eq_of_length heq
    exact List.filter_eq_self.1 hall x (List.mem_filter.2 ⟨hx, hq⟩)
  · intro hback
    exact List.countP_congr fun x hx => ⟨himp x hx, hback x hx⟩

variable {artifact : TextIndexArtifact S} {fields queryTerms : List String}

/-- The searched tokens of a record are those of the fields, field by field. -/
structure FieldsCover (fields : List String) (record : IndexRecord S) (textField : Option String) :
    Prop where
  covers : ∀ term, term ∈ record.tokensFor textField ↔ ∃ field ∈ fields,
    term ∈ record.tokensIn field
  sublist : ∀ field ∈ fields, (record.tokensIn field).Sublist (record.tokensFor textField)
  apart : ∀ field ∈ fields, ∀ other ∈ fields,
    (record.tokensIn field).length = (record.tokensFor textField).length →
    record.tokensIn other ≠ [] →
      field = other

/-- A record whose hits are all in the whole of its tokens has the same counts. -/
theorem inputs_of_single {record : IndexRecord S} (hcover : FieldsCover fields record textField)
    (hsingle : ∀ field ∈ fields, ∀ term ∈ queryTerms, term ∈ record.tokensIn field →
      record.tokensIn field = record.tokensFor textField)
    (hmatch : ∃ term ∈ queryTerms, term ∈ record.tokensFor textField) :
    (artifact.inputs fields (F32.termSet queryTerms) record).tf =
        termFrequency queryTerms (record.tokensFor textField) ∧
      (artifact.inputs fields (F32.termSet queryTerms) record).docLen =
        (record.tokensFor textField).length := by
  have hhit : ∀ hit ∈ record.hits fields (F32.termSet queryTerms),
      hit.1 ∈ queryTerms ∧ hit.1 ∈ record.tokensFor textField ∧
        hit.2 = ((record.tokensFor textField).count hit.1,
          (record.tokensFor textField).length) := by
    intro hit hmem
    obtain ⟨field, hfield, hterm, hmem, hcounts⟩ := mem_hits.1 hmem
    rw [mem_termSet] at hterm
    rw [hsingle field hfield hit.1 hterm hmem] at hcounts hmem
    exact ⟨hterm, hmem, hcounts⟩
  have hfound : ∀ term ∈ queryTerms, term ∈ record.tokensFor textField →
      (term, (record.tokensFor textField).count term, (record.tokensFor textField).length) ∈
        record.hits fields (F32.termSet queryTerms) := by
    intro term hterm hmem
    obtain ⟨field, hfield, hin⟩ := (hcover.covers term).1 hmem
    have hsame := hsingle field hfield term hterm hin
    exact mem_hits.2 ⟨field, hfield, mem_termSet.2 hterm, hin, by rw [hsame]⟩
  constructor
  · refine Std.ExtTreeMap.ext_getElem? fun term => ?_
    have hinserts : (artifact.inputs fields (F32.termSet queryTerms) record).tf =
        (((record.hits fields (F32.termSet queryTerms)).map fun hit => (hit.1, hit.2.1)).foldl
          (fun tf e => tf.insert e.1 e.2) ∅ : TermCounts) := by
      rw [List.foldl_map]
      rfl
    have hvalues : ∀ count ∈ valuesOf ((record.hits fields (F32.termSet queryTerms)).map fun hit =>
        (hit.1, hit.2.1)) term, term ∈ queryTerms ∧ term ∈ record.tokensFor textField ∧
          count = (record.tokensFor textField).count term := by
      intro count hcount
      simp only [valuesOf, List.mem_filterMap, List.mem_map] at hcount
      obtain ⟨_, ⟨hit, hmem, rfl⟩, hsome⟩ := hcount
      split_ifs at hsome with hterm
      obtain ⟨hquery, htoken, hcounts⟩ := hhit hit hmem
      rw [hcounts] at hsome
      rw [← hterm]
      exact ⟨hquery, htoken, (Option.some.inj hsome).symm⟩
    rw [hinserts, getElem?_foldl_insert_last, getElem?_termFrequency]
    split_ifs with hboth
    · cases hlast : (valuesOf ((record.hits fields (F32.termSet queryTerms)).map fun hit =>
          (hit.1, hit.2.1)) term).getLast? with
      | none =>
        rw [List.getLast?_eq_none_iff, valuesOf, List.filterMap_eq_nil_iff] at hlast
        have hno := hlast _ (List.mem_map_of_mem (hfound term hboth.1 hboth.2))
        rw [if_pos rfl] at hno
        cases hno
      | some count => rw [(hvalues count (List.mem_of_getLast? hlast)).2.2]
    · rw [List.getLast?_eq_none_iff]
      refine List.eq_nil_iff_forall_not_mem.2 fun count hcount => hboth ?_
      exact ⟨(hvalues count hcount).1, (hvalues count hcount).2.1⟩
  · obtain ⟨term, hterm, hmem⟩ := hmatch
    rw [TextIndexArtifact.inputs]
    cases hlast : ((record.hits fields (F32.termSet queryTerms)).map
      fun hit => hit.2.2).getLast? with
    | none =>
      rw [List.getLast?_eq_none_iff, List.map_eq_nil_iff] at hlast
      have hno := hfound term hterm hmem
      rw [hlast] at hno
      cases hno
    | some docLen =>
      obtain ⟨hit, hhits, rfl⟩ := List.mem_map.1 (List.mem_of_getLast? hlast)
      rw [Option.getD_some, (hhit hit hhits).2.2]

theorem postingsOf_ne_nil {field term : String} :
    postingsOf records field term ≠ [] ↔ ∃ record ∈ records, term ∈ record.tokensIn field := by
  rw [← List.length_pos_iff, length_postingsOf, List.countP_pos_iff]
  simp

/-- The inputs of an index are those of the documents when each record has the terms that it is
found by in the only field with tokens, and each term is found in one field. -/
theorem inputs_eq_iff (hpostings : artifact.postings = records.foldl addPostings ∅)
    (hqueryTerms : ∀ term ∈ queryTerms, '\x00' ∉ term.toList)
    (hcover : ∀ record ∈ records, FieldsCover fields record textField) :
    (∀ record ∈ records, (∃ term ∈ queryTerms, term ∈ record.tokensFor textField) →
      artifact.inputs fields (F32.termSet queryTerms) record =
        corpusInputs ops queryTerms (documentsOf records textField) (record.tokensFor textField)) ↔
    ((∃ record ∈ records, ∃ term ∈ queryTerms, term ∈ record.tokensFor textField) →
      artifact.docCount = (documentsOf records textField).length ∧
        artifact.avgLen = ops.averageLength (prepareDocuments (documentsOf records textField))) ∧
    (∀ record ∈ records, ∀ field ∈ fields, ∀ term ∈ queryTerms, term ∈ record.tokensIn field →
      record.tokensIn field = record.tokensFor textField) ∧
    ∀ term ∈ queryTerms, ∀ record ∈ records, ∀ other ∈ records,
      ∀ field ∈ fields, ∀ otherField ∈ fields,
        term ∈ record.tokensIn field → term ∈ other.tokensIn otherField → field = otherField := by
  have hterms : ∀ term ∈ F32.termSet queryTerms, '\x00' ∉ term.toList :=
    fun term hterm => hqueryTerms term (mem_termSet.1 hterm)
  have hdf := getElem?_totals_df fields hpostings hterms
  constructor
  · intro hsame
    have hwhole : ∀ record ∈ records, ∀ field ∈ fields, ∀ term ∈ queryTerms,
        term ∈ record.tokensIn field → record.tokensIn field = record.tokensFor textField := by
      intro record hrecord field hfield term hterm hmem
      have hmatch : ∃ term ∈ queryTerms, term ∈ record.tokensFor textField :=
        ⟨term, hterm, ((hcover record hrecord).covers term).2 ⟨field, hfield, hmem⟩⟩
      have hlength : (artifact.inputs fields (F32.termSet queryTerms) record).docLen =
          (record.tokensFor textField).length := by
        rw [hsame record hrecord hmatch]
        rfl
      have hhit : (term, (record.tokensIn field).count term, (record.tokensIn field).length) ∈
          record.hits fields (F32.termSet queryTerms) :=
        mem_hits.2 ⟨field, hfield, mem_termSet.2 hterm, hmem, rfl⟩
      -- The length is that of the last field with a hit.
      rw [TextIndexArtifact.inputs] at hlength
      cases hlast : ((record.hits fields (F32.termSet queryTerms)).map
        fun hit => hit.2.2).getLast? with
      | none =>
        rw [List.getLast?_eq_none_iff, List.map_eq_nil_iff] at hlast
        rw [hlast] at hhit
        cases hhit
      | some docLen =>
        obtain ⟨hit, hhits, rfl⟩ := List.mem_map.1 (List.mem_of_getLast? hlast)
        obtain ⟨last, hlastField, -, -, hcounts⟩ := mem_hits.1 hhits
        rw [hlast, Option.getD_some, hcounts] at hlength
        have heq := (hcover record hrecord).apart last hlastField field hfield hlength
          (List.ne_nil_of_mem hmem)
        rw [heq] at hlength
        exact ((hcover record hrecord).sublist field hfield).eq_of_length hlength
    refine ⟨fun hmatch => ?_, hwhole, ?_⟩
    · obtain ⟨record, hrecord, hmatch⟩ := hmatch
      have hinputs := hsame record hrecord hmatch
      exact ⟨congrArg ScoreInputs.docCount hinputs, congrArg ScoreInputs.avgLen hinputs⟩
    · intro term hterm record hrecord other hother field hfield otherField
        hotherField hmem hotherMem
      have hfound := ((hcover record hrecord).covers term).2 ⟨field, hfield, hmem⟩
      have hinputs := congrArg (fun inputs => inputs.df[term]?)
        (hsame record hrecord ⟨term, hterm, hfound⟩)
      dsimp only [TextIndexArtifact.inputs, corpusInputs] at hinputs
      rw [getElem?_documentFrequency_documentsOf, if_pos ⟨hterm, record, hrecord, hfound⟩]
        at hinputs
      rcases hdf term with ⟨hnone, -⟩ | ⟨-, last, hlast, -, hcount⟩
      · rw [hnone] at hinputs
        cases hinputs
      · have himp : ∀ record ∈ records, decide (term ∈ record.tokensIn last) = true →
            decide (term ∈ record.tokensFor textField) = true := by
          intro record hrecord hin
          rw [decide_eq_true_iff] at hin ⊢
          exact ((hcover record hrecord).covers term).2 ⟨last, hlast, hin⟩
        rw [hcount, length_postingsOf, Option.some_inj, countP_eq_iff_of_imp himp] at hinputs
        -- The field of the postings has the term wherever it occurs.
        have hlastOf : ∀ record ∈ records, ∀ field ∈ fields, term ∈ record.tokensIn field →
            field = last := by
          intro record hrecord field hfield hmem
          have hfound := ((hcover record hrecord).covers term).2 ⟨field, hfield, hmem⟩
          have hin : term ∈ record.tokensIn last := by
            simpa using hinputs record hrecord (by simpa using hfound)
          refine (hcover record hrecord).apart field hfield last hlast ?_ (List.ne_nil_of_mem hin)
          rw [hwhole record hrecord field hfield term hterm hmem]
        rw [hlastOf record hrecord field hfield hmem,
          hlastOf other hother otherField hotherField hotherMem]
  · rintro ⟨hcounts, hwhole, hone⟩ record hrecord hmatch
    obtain ⟨htf, hlength⟩ := @inputs_of_single _ _ artifact _ _ _ (hcover record hrecord)
      (hwhole record hrecord) hmatch
    obtain ⟨hcount, havg⟩ := hcounts ⟨record, hrecord, hmatch⟩
    have hfrequency : (artifact.totals fields (F32.termSet queryTerms)).df =
        documentFrequency (matchingDocs queryTerms
          (prepareDocuments (documentsOf records textField))) := by
      refine Std.ExtTreeMap.ext_getElem? fun term => ?_
      rw [getElem?_documentFrequency_documentsOf]
      rcases hdf term with ⟨hnone, hmissing⟩ | ⟨hterm, field, hfield, hne, hsome⟩
      · rw [hnone]
        refine (if_neg ?_).symm
        rintro ⟨hterm, other, hother, hmem⟩
        obtain ⟨field, hfield, hin⟩ := ((hcover other hother).covers term).1 hmem
        rcases hmissing with hmissing | hmissing
        · exact hmissing (mem_termSet.2 hterm)
        · exact postingsOf_ne_nil.2 ⟨other, hother, hin⟩ (hmissing field hfield)
      · rw [mem_termSet] at hterm
        obtain ⟨other, hother, hin⟩ := postingsOf_ne_nil.1 hne
        have hfound := ((hcover other hother).covers term).2 ⟨field, hfield, hin⟩
        rw [hsome, if_pos ⟨hterm, other, hother, hfound⟩, length_postingsOf]
        refine congrArg some (List.countP_congr fun found hfound => ?_)
        rw [decide_eq_true_iff, decide_eq_true_iff, (hcover found hfound).covers]
        constructor
        · exact fun hmem => ⟨field, hfield, hmem⟩
        · rintro ⟨foundField, hfoundField, hmem⟩
          rwa [hone term hterm other hother found hfound field hfield
            foundField hfoundField hin hmem]
    rw [corpusInputs, ← htf, ← hlength, ← hcount, ← havg, ← hfrequency]
    rfl

end

/-! ### Agreement -/

/-- Two elements of a list give separate parts of its `flatMap`. -/
theorem length_add_le_length_flatMap {α β : Type} [DecidableEq α] {f : α → List β} {xs : List α}
    {x y : α} (hx : x ∈ xs) (hy : y ∈ xs) (hne : y ≠ x) :
    (f x).length + (f y).length ≤ (xs.flatMap f).length := by
  have hperm := (List.perm_cons_erase hx).flatMap_right f
  have hrest : (f y).Sublist ((xs.erase x).flatMap f) :=
    List.sublist_flatten_of_mem (List.mem_map_of_mem ((List.mem_erase_of_ne hne).2 hy))
  rw [hperm.length_eq, List.flatMap_cons, List.length_append]
  exact Nat.add_le_add_left hrest.length_le _

section
variable {records : List (IndexRecord S)}

theorem fieldsCover_some (record : IndexRecord S) (field : String) :
    FieldsCover [field] record (some field) where
  covers term := by simp [record.tokensFor_some]
  sublist other hother := by
    rw [List.mem_singleton.1 hother, record.tokensFor_some]
  apart other hother another hanother _ _ := by
    rw [List.mem_singleton.1 hother, List.mem_singleton.1 hanother]

theorem IndexRecord.tokensIn_of_get {record : IndexRecord S} {field body : String}
    (h : record.text[field]? = some body) : record.tokensIn field = tokenize body := by
  rw [tokensIn, h]

theorem IndexRecord.exists_body {record : IndexRecord S} {field : String}
    (h : record.tokensIn field ≠ []) : ∃ body, record.text[field]? = some body := by
  cases hget : record.text[field]? with
  | none =>
    rw [tokensIn, hget] at h
    exact absurd rfl h
  | some body => exact ⟨body, rfl⟩

theorem IndexRecord.tokensIn_sublist (record : IndexRecord S) (field : String) :
    (record.tokensIn field).Sublist (record.tokensFor none) := by
  rw [tokensFor_none]
  cases hget : record.text[field]? with
  | none =>
    rw [tokensIn, hget]
    exact List.nil_sublist _
  | some body =>
    rw [tokensIn_of_get hget]
    exact List.sublist_flatten_of_mem (List.mem_map.2
      ⟨(field, body), Std.ExtTreeMap.mem_toList_iff_getElem?_eq_some.2 hget, rfl⟩)

/-- A field that holds all tokens is the only field with tokens. -/
theorem IndexRecord.eq_of_length_tokensIn {record : IndexRecord S} {field other : String}
    (hlength : (record.tokensIn field).length = (record.tokensFor none).length)
    (hother : record.tokensIn other ≠ []) : field = other := by
  have hpos := List.length_pos_iff.2 hother
  have hle := (record.tokensIn_sublist other).length_le
  have hfield : record.tokensIn field ≠ [] := List.length_pos_iff.1 (by omega)
  obtain ⟨body, hget⟩ := IndexRecord.exists_body hfield
  obtain ⟨otherBody, hgetOther⟩ := IndexRecord.exists_body hother
  by_contra hne
  have hadd := length_add_le_length_flatMap (f := fun text : String × String => tokenize text.2)
    (Std.ExtTreeMap.mem_toList_iff_getElem?_eq_some.2 hget)
    (Std.ExtTreeMap.mem_toList_iff_getElem?_eq_some.2 hgetOther) fun heq =>
      hne (Prod.mk.inj heq).1.symm
  rw [← record.tokensFor_none] at hadd
  rw [tokensIn_of_get hget] at hlength
  rw [tokensIn_of_get hgetOther] at hpos
  dsimp only at hadd
  omega

theorem IndexRecord.tokensFor_of_only {record : IndexRecord S} {field : String}
    (h : ∀ other, record.tokensIn other ≠ [] → field = other) :
    record.tokensFor none = record.tokensIn field := by
  have hone := filterMap_toList_key record.text some field
  have hfield : record.tokensIn field =
      (record.text[field]?.bind some).toList.flatMap tokenize := by
    rw [tokensIn]
    cases record.text[field]? <;> simp
  rw [tokensFor_none, hfield, ← hone, List.filterMap_eq_flatMap_toList, List.flatMap_assoc]
  refine List.flatMap_congr fun text htext => ?_
  rw [Std.ExtTreeMap.mem_toList_iff_getElem?_eq_some] at htext
  split_ifs with hname
  · simp
  · rw [← tokensIn_of_get htext]
    by_contra hne
    exact hname (h text.1 hne).symm

theorem fieldsCover_none {record : IndexRecord S} {fields : List String}
    (hfields : ∀ field ∈ record.text, field ∈ fields) : FieldsCover fields record none where
  covers term := by
    constructor
    · rw [record.tokensFor_none, List.mem_flatMap]
      rintro ⟨⟨field, body⟩, hentry, hmem⟩
      rw [Std.ExtTreeMap.mem_toList_iff_getElem?_eq_some] at hentry
      refine ⟨field, hfields field ?_, by rwa [IndexRecord.tokensIn_of_get hentry]⟩
      rw [Std.ExtTreeMap.mem_iff_isSome_getElem?, hentry]
      rfl
    · rintro ⟨field, -, hmem⟩
      exact (record.tokensIn_sublist field).subset hmem
  sublist field _ := record.tokensIn_sublist field
  apart _ _ _ _ := IndexRecord.eq_of_length_tokensIn

variable (ops : F32 S) (segmentId : String) (generation manifestGeneration : ℕ)
  (sourceSegmentChecksum : Digest)

/-- The built index reads every field of its records. -/
theorem mem_fields_buildTextIndex {record : IndexRecord S} (hrecord : record ∈ records)
    {field : String} (hfield : field ∈ record.text) :
    field ∈ (buildTextIndex ops segmentId generation manifestGeneration sourceSegmentChecksum
      records).fields none := by
  rw [TextIndexArtifact.fields, Std.ExtTreeSet.mem_toList, Std.ExtTreeSet.mem_ofList,
    List.contains_eq_mem, decide_eq_true_iff, List.mem_flatMap]
  exact ⟨_, List.mem_map_of_mem hrecord, Std.ExtTreeMap.mem_keys.2 hfield⟩

theorem fieldsCover_buildTextIndex (textField : Option String) {record : IndexRecord S}
    (hrecord : record ∈ records) :
    FieldsCover ((buildTextIndex ops segmentId generation manifestGeneration sourceSegmentChecksum
      records).fields textField) record textField := by
  cases textField with
  | none => exact fieldsCover_none fun field hfield =>
    mem_fields_buildTextIndex ops _ _ _ _ hrecord hfield
  | some field => exact fieldsCover_some record field

end

/-- The scores of an index, as a set, are those of its records as documents. -/
def ScoresAgree (ops : F32 S) (bm25 : Bm25 S) (artifact : TextIndexArtifact S)
    (records : List (IndexRecord S)) (query : String) (textField : Option String) : Prop :=
  ∀ recordId score, ⟨recordId, score⟩ ∈ artifact.scoreText ops bm25 query textField ↔
    (recordId, score) ∈ ops.scoreCorpusBy bm25 query (documentsOf records textField)

/-- The text of a query is in one field, the same for all records with a term and the only field
with tokens.  For a search of one field: every record has it, and its average length is that of all
text. -/
def IndexedAsDocuments (ops : F32 S) (records : List (IndexRecord S)) (query : String) :
    Option String → Prop
  | none => ∀ term ∈ tokenize query, ∀ record ∈ records, ∀ field, term ∈ record.tokensIn field →
      (∀ other, record.tokensIn other ≠ [] → field = other) ∧
        ∀ otherRecord ∈ records, ∀ other, term ∈ otherRecord.tokensIn other → field = other
  | some field => (∃ record ∈ records, ∃ term ∈ tokenize query, term ∈ record.tokensIn field) →
      (∀ record ∈ records, field ∈ record.text) ∧
        ops.div (ops.ofNat (totalTokens records)) (ops.ofNat records.length) =
          ops.div (ops.ofNat (records.map fun record => (record.tokensIn field).length).sum)
            (ops.ofNat records.length)

/-- Two ways to score records by any function agree when they score by the same inputs. -/
theorem scoresAgree_iff_inputs {ops : F32 S} {artifact : TextIndexArtifact S}
    {records : List (IndexRecord S)} {query : String} {textField : Option String}
    (hone : ops.gt (ops.ofRat 1) (ops.ofRat 0) = true)
    (hzero : ops.gt (ops.ofRat 0) (ops.ofRat 0) = false)
    (hpostings : artifact.postings = records.foldl addPostings ∅)
    (hcount : artifact.docCount = records.length) (hdistinct : DistinctIds records)
    (hcover : ∀ record ∈ records, FieldsCover (artifact.fields textField) record textField) :
    (∀ bm25 : Bm25 S, ScoresAgree ops bm25 artifact records query textField) ↔
      ∀ record ∈ records, (∃ term ∈ tokenize query, term ∈ record.tokensFor textField) →
        artifact.inputs (artifact.fields textField) (F32.termSet (tokenize query)) record =
          corpusInputs ops (tokenize query) (documentsOf records textField)
            (record.tokensFor textField) := by
  have hfound : ∀ record ∈ records,
      (record.hits (artifact.fields textField) (F32.termSet (tokenize query)) ≠ [] ↔
        ∃ term ∈ tokenize query, term ∈ record.tokensFor textField) := by
    intro record hrecord
    constructor
    · intro hne
      obtain ⟨hit, hhit⟩ := List.exists_mem_of_ne_nil _ hne
      obtain ⟨field, hfield, hterm, hmem, -⟩ := mem_hits.1 hhit
      exact ⟨hit.1, mem_termSet.1 hterm,
        ((hcover record hrecord).covers hit.1).2 ⟨field, hfield, hmem⟩⟩
    · rintro ⟨term, hterm, hmem⟩
      obtain ⟨field, hfield, hin⟩ := ((hcover record hrecord).covers term).1 hmem
      have hhit : (term, (record.tokensIn field).count term, (record.tokensIn field).length) ∈
          record.hits (artifact.fields textField) (F32.termSet (tokenize query)) :=
        mem_hits.2 ⟨field, hfield, mem_termSet.2 hterm, hin, rfl⟩
      exact List.ne_nil_of_mem hhit
  constructor
  · intro hagree record hrecord hmatch
    by_contra hne
    classical
    -- A score that tells the inputs of the index from all others.
    let inputs := artifact.inputs (artifact.fields textField) (F32.termSet (tokenize query)) record
    let bm25 : Bm25 S := fun _ tf docLen docCount avgLen df =>
      if ⟨tf, docLen, docCount, avgLen, df⟩ = inputs then ops.ofRat 1 else ops.ofRat 0
    have hindexed : ⟨record.recordId, ops.ofRat 1⟩ ∈ artifact.scoreText ops bm25 query textField :=
      (mem_scoreText hpostings hcount hdistinct).2
        ⟨record, hrecord, (hfound record hrecord).2 hmatch, rfl, if_pos rfl, hone⟩
    obtain ⟨other, hother, -, hid, hscore, -⟩ := mem_scoreCorpusBy.1 ((hagree bm25 _ _).1 hindexed)
    obtain rfl := List.inj_on_of_nodup_map hdistinct hother hrecord hid
    have hnot : (corpusInputs ops (tokenize query) (documentsOf records textField)
        (other.tokensFor textField)).score bm25 (tokenize query) = ops.ofRat 0 :=
      if_neg fun heq => hne heq.symm
    rw [hnot] at hscore
    rw [← hscore, hzero] at hone
    cases hone
  · intro hsame bm25 recordId score
    rw [mem_scoreText hpostings hcount hdistinct, mem_scoreCorpusBy]
    refine exists_congr fun record => and_congr_right fun hrecord => ?_
    rw [hfound record hrecord]
    refine and_congr_right fun hmatch => and_congr_right fun _ => ?_
    rw [hsame record hrecord hmatch]

section
variable {records : List (IndexRecord S)}

theorem totalTokens_eq (records : List (IndexRecord S)) :
    totalTokens records = (records.map fun record => (record.tokensFor none).length).sum := by
  induction records with
  | nil => rfl
  | cons record records ih =>
    have hrecord : (record.text.toList.map fun text => (tokenize text.2).length).sum =
        (record.tokensFor none).length := by
      rw [record.tokensFor_none, List.length_flatMap]
    rw [totalTokens, List.flatMap_cons, List.sum_append, hrecord, ← totalTokens, ih, List.map_cons,
      List.sum_cons]

/-- The number of tokens of the documents. -/
theorem sum_prepareDocuments (records : List (IndexRecord S)) (textField : Option String) :
    ((prepareDocuments (documentsOf records textField)).map fun document =>
      document.tokens.length).sum =
      (records.map fun record => (record.tokensFor textField).length).sum := by
  induction records with
  | nil => rfl
  | cons record records ih =>
    rw [List.map_cons, List.sum_cons, ← ih, documentsOf, List.filterMap_cons, IndexRecord.tokensFor]
    cases record.body? textField with
    | none => simp [documentsOf]
    | some body => simp [documentsOf, prepareDocuments]

theorem length_documentsOf_none (records : List (IndexRecord S)) :
    (documentsOf records none).length = records.length := by
  rw [documentsOf, List.length_filterMap_eq_countP, List.countP_eq_length]
  exact fun record _ => rfl

theorem length_documentsOf_some (records : List (IndexRecord S)) (field : String) :
    records.length = (documentsOf records (some field)).length ↔
      ∀ record ∈ records, field ∈ record.text := by
  rw [documentsOf, List.length_filterMap_eq_countP, eq_comm, List.countP_eq_length]
  refine forall₂_congr fun record _ => ?_
  rw [Option.isSome_map, IndexRecord.body?, Std.ExtTreeMap.mem_iff_isSome_getElem?]

variable {ops : F32 S}

theorem averageLength_documentsOf (records : List (IndexRecord S)) (textField : Option String) :
    ops.averageLength (prepareDocuments (documentsOf records textField)) =
      ops.div (ops.ofNat (records.map fun record => (record.tokensFor textField).length).sum)
        (ops.ofNat (documentsOf records textField).length) := by
  rw [F32.averageLength, sum_prepareDocuments, prepareDocuments, List.length_map]

theorem averageLength_of_mem {record : IndexRecord S} (hrecord : record ∈ records) :
    averageLength ops records = ops.div (ops.ofNat (totalTokens records))
    (ops.ofNat records.length) :=
  if_neg (List.length_pos_iff.2 (List.ne_nil_of_mem hrecord)).ne'

end

/-- **A text index scores its records as documents exactly when it cannot mix up their fields**:
whatever the score of a document is, as long as it depends on what `bm25_from_term_frequency` is
given. -/
theorem text_index_scores_iff {ops : F32 S} (hone : ops.gt (ops.ofRat 1) (ops.ofRat 0) = true)
    (hzero : ops.gt (ops.ofRat 0) (ops.ofRat 0) = false) (segmentId : String)
    (generation manifestGeneration : ℕ) (sourceSegmentChecksum : Digest)
    {records : List (IndexRecord S)} (hdistinct : DistinctIds records) (query : String)
    (textField : Option String) :
    (∀ bm25 : Bm25 S, ScoresAgree ops bm25
      (buildTextIndex ops segmentId generation manifestGeneration sourceSegmentChecksum records)
        records query
        textField) ↔ IndexedAsDocuments ops records query textField := by
  have hcover := fun (record : IndexRecord S) (hrecord : record ∈ records) =>
    fieldsCover_buildTextIndex ops segmentId generation manifestGeneration
      sourceSegmentChecksum textField
      hrecord
  rw [scoresAgree_iff_inputs hone hzero rfl rfl hdistinct hcover,
    inputs_eq_iff rfl (fun term hterm => nul_notMem_tokenize hterm) hcover]
  cases textField with
  | none =>
    have hfield : ∀ {record : IndexRecord S} {field term : String}, record ∈ records →
        term ∈ record.tokensIn field →
        field ∈ (buildTextIndex ops segmentId generation manifestGeneration sourceSegmentChecksum
          records).fields none := by
      intro record field term hrecord hmem
      obtain ⟨body, hget⟩ := IndexRecord.exists_body (List.ne_nil_of_mem hmem)
      refine mem_fields_buildTextIndex ops _ _ _ _ hrecord ?_
      rw [Std.ExtTreeMap.mem_iff_isSome_getElem?, hget]
      rfl
    constructor
    · rintro ⟨-, hwhole, hsame⟩ term hterm record hrecord field hmem
      refine ⟨fun other hother => ?_, fun otherRecord hotherRecord other hotherMem => ?_⟩
      · have hlength := congrArg List.length
          (hwhole record hrecord field (hfield hrecord hmem) term hterm hmem)
        exact IndexRecord.eq_of_length_tokensIn hlength hother
      · exact hsame term hterm record hrecord otherRecord hotherRecord field
          (hfield hrecord hmem) other
          (hfield hotherRecord hotherMem) hmem hotherMem
    · intro hindexed
      refine ⟨fun ⟨record, hrecord, _⟩ => ⟨(length_documentsOf_none records).symm, ?_⟩, ?_, ?_⟩
      · rw [averageLength_documentsOf, length_documentsOf_none, ← totalTokens_eq]
        exact averageLength_of_mem hrecord
      · intro record hrecord field _ term hterm hmem
        exact (IndexRecord.tokensFor_of_only (hindexed term hterm record hrecord field hmem).1).symm
      · intro term hterm record hrecord otherRecord hotherRecord field _ other _ hmem hotherMem
        exact (hindexed term hterm record hrecord field hmem).2 otherRecord
          hotherRecord other hotherMem
  | some field =>
    have htokens : ∀ record : IndexRecord S,
        record.tokensFor (some field) = record.tokensIn field :=
      fun record => record.tokensFor_some field
    have hcount : (buildTextIndex ops segmentId generation manifestGeneration sourceSegmentChecksum
        records).docCount = records.length := rfl
    simp only [IndexedAsDocuments, htokens, hcount, length_documentsOf_some]
    constructor
    · rintro ⟨hcounts, -, -⟩ hmatch
      obtain ⟨hall, haverage⟩ := hcounts hmatch
      obtain ⟨record, hrecord, -⟩ := hmatch
      refine ⟨hall, ?_⟩
      rw [← averageLength_of_mem hrecord, (length_documentsOf_some records field).2 hall]
      rw [averageLength_documentsOf] at haverage
      simp only [htokens] at haverage
      exact haverage
    · intro hindexed
      refine ⟨fun hmatch => ?_, ?_, ?_⟩
      · obtain ⟨hall, haverage⟩ := hindexed hmatch
        obtain ⟨record, hrecord, -⟩ := hmatch
        refine ⟨hall, ?_⟩
        rw [averageLength_documentsOf, ← (length_documentsOf_some records field).2 hall]
        simp only [htokens]
        exact (averageLength_of_mem hrecord).trans haverage
      · intro record _ other hother term _ _
        rw [List.mem_singleton.1 hother]
      · intro term _ record _ otherRecord _ other hother another hanother _ _
        rw [List.mem_singleton.1 hother, List.mem_singleton.1 hanother]

/-- A record with a body and, if there is one, a title. -/
def textDoc (recordId : String) (text : List (String × String)) : IndexRecord ℚ where
  table := "docs"
  recordId := recordId
  tenantId := "t"
  versionId := 1
  fields := ∅
  text := .ofList text compare
  vectors := ∅

/-- Two records whose only text is a body. -/
theorem text_index_scores_bodies :
    ScoresAgree .rational F32.rational.bm25FromTermFrequency
      (buildTextIndex .rational "s1" 1 2 Digest.zero
      [textDoc "a" [("body", "alpha beta")], textDoc "b" [("body", "beta")]])
      [textDoc "a" [("body", "alpha beta")], textDoc "b" [("body", "beta")]]
        "beta" (some "body") := by
  have hone : F32.rational.gt (F32.rational.ofRat 1) (F32.rational.ofRat 0) = true := by rfl
  have hzero : F32.rational.gt (F32.rational.ofRat 0) (F32.rational.ofRat 0) = false := by rfl
  have hdistinct : DistinctIds
      [textDoc "a" [("body", "alpha beta")], textDoc "b" [("body", "beta")]] := by
    unfold DistinctIds
    decide
  have hscores := text_index_scores_iff hone hzero "s1" 1 2 Digest.zero
    hdistinct "beta" (some "body")
  exact hscores.2 (fun _ => by decide +kernel) F32.rational.bm25FromTermFrequency

/-- **A title hides a body**: the length of a record whose title has the query is that of the
title. -/
theorem title_hides_body :
    ¬ ScoresAgree .rational F32.rational.bm25FromTermFrequency
      (buildTextIndex .rational "s1" 1 2 Digest.zero
        [textDoc "d1" [("body", "alpha"), ("title", "alpha beta")]])
      [textDoc "d1" [("body", "alpha"), ("title", "alpha beta")]] "beta" none := by
  intro hagree
  have hfound : ∀ found ∈ (buildTextIndex .rational "s1" 1 2 Digest.zero
      [textDoc "d1" [("body", "alpha"), ("title", "alpha beta")]]).scoreText .rational
        F32.rational.bm25FromTermFrequency "beta" none, (found.recordId, found.score) ∈
      F32.rational.scoreCorpusBy F32.rational.bm25FromTermFrequency "beta"
        (documentsOf [textDoc "d1" [("body", "alpha"), ("title", "alpha beta")]] none) :=
    fun found hmem => (hagree found.recordId found.score).1 hmem
  revert hfound
  decide +kernel

end TraceDB
