import TraceDB.Core.Value
import TraceDB.Data.Tally
import Mathlib.Algebra.GroupWithZero.Nat
import Mathlib.Data.List.Dedup
import Mathlib.Data.Rat.Defs

/-!
# Lexical scores

`tracedb-text` scores documents against a query by BM25.  A corpus can be scored directly
(`scoreCorpus`) or be prepared once and scored for several queries: the prepared corpus keeps the
tokens, and postings for the rarer terms of the query it was first scored for.

`scoreQuery_prepared` : a prepared corpus scores every query as its documents are scored directly,
whatever query it was prepared for.
-/

namespace TraceDB

/-- The operations of `f32` that scores are computed with.  Nothing is assumed about them. -/
structure F32 (S : Type) where
  /-- A literal, or an integer converted by `as f32`. -/
  ofRat : ℚ → S
  add : S → S → S
  sub : S → S → S
  mul : S → S → S
  div : S → S → S
  max : S → S → S
  min : S → S → S
  abs : S → S
  ln : S → S
  sqrt : S → S
  /-- `f32::partial_cmp`. -/
  partialCmp : S → S → Option Ordering
  isFinite : S → Bool

/-! ### Documents -/

/-- `tokenize`. -/
def tokenize (input : String) : List String :=
  ((input.toList.splitOnP fun c => !c.isAlphanum).filter fun token => !token.isEmpty).map
    fun token => String.ofList (token.map Char.toLower)

/-- `PreparedTextDocument`. -/
structure PreparedTextDocument where
  id : String
  tokens : List String

/-- The documents with their tokens. -/
def prepareDocuments (docs : List (String × String)) : List PreparedTextDocument :=
  docs.map fun doc => ⟨doc.1, tokenize doc.2⟩

/-- A count for each term. -/
abbrev TermCounts := Std.ExtTreeMap String ℕ compare

/-- How often each term of the query occurs. -/
def termFrequency (queryTerms tokens : List String) : TermCounts :=
  tally (tokens.filter fun token => token ∈ queryTerms)

/-- `QueryScopedDoc`. -/
structure QueryScopedDoc where
  id : String
  docLen : ℕ
  documentIndex : ℕ
  tf : TermCounts

/-- The documents in which a term of the query occurs. -/
def matchingDocs (queryTerms : List String) (documents : List PreparedTextDocument) :
    List QueryScopedDoc :=
  documents.zipIdx.filterMap fun entry =>
    let tf := termFrequency queryTerms entry.1.tokens
    if tf.isEmpty then none else some ⟨entry.1.id, entry.1.tokens.length, entry.2, tf⟩

/-- In how many documents each term occurs. -/
def documentFrequency (docs : List QueryScopedDoc) : TermCounts :=
  tally (docs.flatMap fun doc => doc.tf.keys)

/-- `PreparedTextPosting`. -/
structure PreparedTextPosting where
  documentIndex : ℕ
  termFrequency : ℕ

/-- `selective_postings`. -/
def selectivePostings (docs : List QueryScopedDoc) (df : TermCounts) (docCount : ℕ) :
    Std.ExtTreeMap String (List PreparedTextPosting) compare :=
  let cutoff := Nat.max (docCount / 4) 1
  group (docs.flatMap fun doc =>
    (doc.tf.toList.filter fun e => df[e.1]?.any fun docFreq => docFreq ≤ cutoff).map fun e =>
      (e.1, ⟨doc.documentIndex, e.2⟩))

/-- `PreparedTextCorpus`. -/
structure PreparedTextCorpus (S : Type) where
  docCount : ℕ
  avgLen : S
  documents : List PreparedTextDocument
  postings : Std.ExtTreeMap String (List PreparedTextPosting) compare

namespace F32

variable {S : Type} (ops : F32 S)

/-- `n as f32`. -/
def ofNat (n : ℕ) : S := ops.ofRat n

/-- `left > right`. -/
def gt (left right : S) : Bool := ops.partialCmp left right == some .gt

/-- `left <= right`. -/
def le (left right : S) : Bool :=
  ops.partialCmp left right == some .lt || ops.partialCmp left right == some .eq

/-! ### Scores -/

/-- `bm25_from_term_frequency`. -/
def bm25FromTermFrequency (queryTerms : List String) (tf : TermCounts) (docLen docCount : ℕ)
    (avgLen : S) (df : TermCounts) : S :=
  let k1 := ops.ofRat (3 / 2)
  let b := ops.ofRat (3 / 4)
  let one := ops.ofRat 1
  let half := ops.ofRat (1 / 2)
  queryTerms.foldl (fun score term =>
    let freq := ops.ofNat (tf.getD term 0)
    if ops.partialCmp freq (ops.ofRat 0) = some .eq then score
    else
      let docFreq := ops.ofNat (df.getD term 0)
      let idf := ops.ln (ops.add (ops.div (ops.add (ops.sub (ops.ofNat docCount) docFreq) half)
        (ops.add docFreq half)) one)
      let denom := ops.add freq (ops.mul k1 (ops.add (ops.sub one b)
        (ops.div (ops.mul b (ops.ofNat docLen)) (ops.max avgLen one))))
      ops.add score (ops.div (ops.mul idf (ops.mul freq (ops.add k1 one))) denom)) (ops.ofRat 0)

/-- The score of one document; documents without a positive score are left out. -/
def scoreDocument (queryTerms : List String) (docCount : ℕ) (avgLen : S) (df : TermCounts)
    (id : String) (docLen : ℕ) (tf : TermCounts) : Option (String × S) :=
  let score := ops.bm25FromTermFrequency queryTerms tf docLen docCount avgLen df
  if ops.gt score (ops.ofRat 0) then some (id, score) else none

/-- The scores of the matching documents. -/
def scoreMatching (queryTerms : List String) (docCount : ℕ) (avgLen : S)
    (docs : List QueryScopedDoc) : List (String × S) :=
  docs.filterMap fun doc =>
    ops.scoreDocument queryTerms docCount avgLen (documentFrequency docs) doc.id doc.docLen doc.tf

/-- The average length of documents. -/
def averageLength (documents : List PreparedTextDocument) : S :=
  ops.div (ops.ofNat (documents.map fun doc => doc.tokens.length).sum) (ops.ofNat documents.length)

/-- `score_corpus`. -/
def scoreCorpus (query : String) (docs : List (String × String)) : List (String × S) :=
  let queryTerms := tokenize query
  if queryTerms.isEmpty || docs.isEmpty then []
  else
    let documents := prepareDocuments docs
    ops.scoreMatching queryTerms docs.length (ops.averageLength documents)
      (matchingDocs queryTerms documents)

/-- `PreparedTextCorpus::from_documents`. -/
def fromDocuments (docs : List (String × String)) : PreparedTextCorpus S :=
  if docs.isEmpty then ⟨0, ops.ofRat 0, [], ∅⟩
  else
    let documents := prepareDocuments docs
    ⟨docs.length, ops.averageLength documents, documents, ∅⟩

/-- `PreparedTextCorpus::from_documents_with_initial_score`. -/
def fromDocumentsWithInitialScore (query : String) (docs : List (String × String)) :
    PreparedTextCorpus S × List (String × S) :=
  if docs.isEmpty then (⟨0, ops.ofRat 0, [], ∅⟩, [])
  else
    let queryTerms := tokenize query
    let documents := prepareDocuments docs
    let matching := matchingDocs queryTerms documents
    let avgLen := ops.averageLength documents
    (⟨docs.length, avgLen, documents,
      selectivePostings matching (documentFrequency matching) docs.length⟩,
      if queryTerms.isEmpty then []
      else ops.scoreMatching queryTerms docs.length avgLen matching)

/-- The counts that `score_query_from_postings` reads off the postings, document by document. -/
def postedCounts (corpus : PreparedTextCorpus S) (queryTermSet : List String) :
    Std.ExtTreeMap ℕ (List (String × ℕ)) compare :=
  group (queryTermSet.flatMap fun term =>
    (corpus.postings[term]?.getD []).map fun posting =>
      (posting.documentIndex, (term, posting.termFrequency)))

/-- `score_query_from_postings`. -/
def scoreQueryFromPostings (corpus : PreparedTextCorpus S) (queryTerms queryTermSet : List String) :
    List (String × S) :=
  let df := queryTermSet.foldl (fun df term =>
    match corpus.postings[term]? with
    | none => df
    | some postings => df.insert term postings.length) (∅ : TermCounts)
  (postedCounts corpus queryTermSet).toList.filterMap fun entry =>
    corpus.documents[entry.1]?.bind fun doc =>
      ops.scoreDocument queryTerms corpus.docCount corpus.avgLen df doc.id doc.tokens.length
        (.ofList entry.2)

/-- The terms of a query, as a sorted set. -/
def termSet (queryTerms : List String) : List String :=
  (queryTerms.mergeSort fun a b => decide (a ≤ b)).dedup

/-- `score_query_with_stats`. -/
def scoreQueryWithStats (corpus : PreparedTextCorpus S) (query : String) : List (String × S) :=
  let queryTerms := tokenize query
  if queryTerms.isEmpty || corpus.docCount = 0 then []
  else
    let queryTermSet := termSet queryTerms
    if queryTermSet.all fun term => corpus.postings.contains term then
      ops.scoreQueryFromPostings corpus queryTerms queryTermSet
    else
      ops.scoreMatching queryTerms corpus.docCount corpus.avgLen
        (matchingDocs queryTermSet corpus.documents)

end F32

/-! ### Counts -/

/-- The documents in which a term occurs, with how often it does. -/
def occurrences (documents : List PreparedTextDocument) (term : String) :
    List PreparedTextPosting :=
  documents.zipIdx.filterMap fun entry =>
    if term ∈ entry.1.tokens then some ⟨entry.2, entry.1.tokens.count term⟩ else none

theorem getElem?_termFrequency (queryTerms tokens : List String) (term : String) :
    (termFrequency queryTerms tokens)[term]? =
      if term ∈ queryTerms ∧ term ∈ tokens then some (tokens.count term) else none := by
  rw [termFrequency, getElem?_tally]
  by_cases hquery : term ∈ queryTerms
  · simp [hquery, List.count_filter]
  · simp [hquery]

theorem termFrequency_congr {terms terms' : List String} (h : ∀ term, term ∈ terms ↔ term ∈ terms')
    (tokens : List String) : termFrequency terms tokens = termFrequency terms' tokens := by
  refine Std.ExtTreeMap.ext_getElem? fun term => ?_
  simp only [getElem?_termFrequency, h]

/-- What a matching document says about one term. -/
theorem filterMap_matchingDocs {queryTerms : List String} {term : String}
    (hterm : term ∈ queryTerms) (documents : List PreparedTextDocument) :
    ((matchingDocs queryTerms documents).filterMap fun doc =>
      doc.tf[term]?.map fun count => (⟨doc.documentIndex, count⟩ : PreparedTextPosting)) =
        occurrences documents term := by
  rw [matchingDocs, List.filterMap_filterMap, occurrences]
  refine congrArg (List.filterMap · _) (funext fun entry => ?_)
  have hget := getElem?_termFrequency queryTerms entry.1.tokens term
  by_cases hempty : (termFrequency queryTerms entry.1.tokens).isEmpty = true
  · rw [Std.ExtTreeMap.isEmpty_iff.1 hempty] at hget
    have hnot : term ∉ entry.1.tokens := fun hmem => by simp [hterm, hmem] at hget
    simp [hempty, hnot]
  · simp only [hempty, Bool.false_eq_true, if_false, Option.bind_some, hget, hterm, true_and]
    split_ifs <;> rfl

/-- In how many documents a term of the query occurs. -/
theorem getElem?_documentFrequency {queryTerms : List String} {term : String}
    (hterm : term ∈ queryTerms) {documents : List PreparedTextDocument}
    (hoccurs : occurrences documents term ≠ []) :
    (documentFrequency (matchingDocs queryTerms documents))[term]? =
      some (occurrences documents term).length := by
  have hcount : ∀ docs : List QueryScopedDoc, (docs.flatMap fun doc => doc.tf.keys).count term =
      (docs.filterMap fun doc =>
        doc.tf[term]?.map fun count =>
          (⟨doc.documentIndex, count⟩ : PreparedTextPosting)).length := by
    intro docs
    induction docs with
    | nil => rfl
    | cons doc docs ih =>
      have hmem : term ∈ doc.tf.keys ↔ doc.tf[term]?.isSome = true := by
        rw [Std.ExtTreeMap.mem_keys, Std.ExtTreeMap.mem_iff_isSome_getElem?]
      rw [List.flatMap_cons, List.count_append, ih, List.filterMap_cons,
        Std.ExtTreeMap.nodup_keys.count]
      cases hget : doc.tf[term]? with
      | none => simp [hmem, hget]
      | some count => simp [hmem, hget, Nat.add_comm]
  rw [documentFrequency, getElem?_tally, hcount, filterMap_matchingDocs hterm]
  refine if_pos (List.count_pos_iff.1 ?_)
  rw [hcount, filterMap_matchingDocs hterm]
  exact List.length_pos_iff.2 hoccurs

/-- A posting list of a prepared corpus holds all occurrences of its term. -/
theorem getElem?_selectivePostings {queryTerms : List String}
    {documents : List PreparedTextDocument} {df : TermCounts} {docCount : ℕ} {term : String}
    {postings : List PreparedTextPosting}
    (h : (selectivePostings (matchingDocs queryTerms documents) df docCount)[term]? =
      some postings) : postings = occurrences documents term ∧ postings ≠ [] := by
  rw [selectivePostings, getElem?_group] at h
  generalize hkeep : (fun docFreq => decide (docFreq ≤ Nat.max (docCount / 4) 1)) = keep at h
  -- Within one document a term has one entry, and whether it is kept depends on the term only.
  have hdoc : ∀ doc : QueryScopedDoc, valuesOf ((doc.tf.toList.filter fun e =>
      df[e.1]?.any keep).map fun e => (e.1,
        (⟨doc.documentIndex, e.2⟩ : PreparedTextPosting))) term =
      (if df[term]?.any keep = true then
        doc.tf[term]?.map fun count => (⟨doc.documentIndex, count⟩ : PreparedTextPosting)
        else none).toList := by
    intro doc
    have hone := filterMap_toList_key doc.tf (fun count => if df[term]?.any keep = true then
      some (⟨doc.documentIndex, count⟩ : PreparedTextPosting) else none) term
    rw [valuesOf, List.filterMap_map, List.filterMap_filter]
    refine Eq.trans ?_ (hone.trans ?_)
    · refine congrArg (List.filterMap · _) (funext fun e => ?_)
      by_cases he : e.1 = term
      · simp only [Function.comp_apply, he, if_true]
      · simp only [Function.comp_apply, he, if_false, ite_self]
    · cases doc.tf[term]? <;> split_ifs <;> rfl
  rw [valuesOf_flatMap] at h
  simp only [hdoc] at h
  rw [← List.filterMap_eq_flatMap_toList] at h
  by_cases hkept : df[term]?.any keep = true
  · simp only [hkept, if_true] at h
    have hterm : term ∈ queryTerms := by
      by_contra hnot
      rw [if_pos (List.filterMap_eq_nil_iff.2 fun doc hdoc => ?_)] at h
      · cases h
      · obtain ⟨entry, -, hentry⟩ := List.mem_filterMap.1 hdoc
        dsimp only at hentry
        split_ifs at hentry
        obtain rfl := Option.some.inj hentry
        rw [getElem?_termFrequency, if_neg fun hboth => hnot hboth.1]
        rfl
    rw [filterMap_matchingDocs hterm] at h
    split_ifs at h with hnil
    exact ⟨(Option.some.inj h).symm, fun hpost => hnil ((Option.some.inj h).trans hpost)⟩
  · simp [hkept] at h

/-! ### Scores from postings -/

/-- The counts of the terms in one document. -/
def countsOf (terms : List String) (doc : PreparedTextDocument) : List (String × ℕ) :=
  terms.filterMap fun term =>
    if term ∈ doc.tokens then some (term, doc.tokens.count term) else none

theorem ofList_countsOf {terms : List String} (hnodup : terms.Nodup) (doc : PreparedTextDocument) :
    Std.ExtTreeMap.ofList (countsOf terms doc) compare = termFrequency terms doc.tokens := by
  refine Std.ExtTreeMap.ext_getElem? fun term => ?_
  rw [getElem?_termFrequency]
  have hdistinct : (countsOf terms doc).Pairwise fun a b => ¬ compare a.1 b.1 = .eq := by
    refine (List.pairwise_filterMap.2 (hnodup.imp fun {a b} hne => ?_))
    intro c hc d hd heq
    split_ifs at hc hd
    obtain rfl := Option.some.inj hc
    obtain rfl := Option.some.inj hd
    exact hne (compare_eq_iff_eq.1 heq)
  split_ifs with hboth
  · refine Std.ExtTreeMap.getElem?_ofList_of_mem (compare_eq_iff_eq.2 rfl) hdistinct ?_
    exact List.mem_filterMap.2 ⟨term, hboth.1, if_pos hboth.2⟩
  · refine Std.ExtTreeMap.getElem?_ofList_of_contains_eq_false ?_
    rw [List.contains_eq_mem, decide_eq_false_iff_not]
    intro hmem
    obtain ⟨entry, hentry, rfl⟩ := List.mem_map.1 hmem
    obtain ⟨term, hterm, hsome⟩ := List.mem_filterMap.1 hentry
    split_ifs at hsome with htoken
    obtain rfl := Option.some.inj hsome
    exact hboth ⟨hterm, htoken⟩

theorem countsOf_eq_nil_iff {terms : List String} {doc : PreparedTextDocument} :
    countsOf terms doc = [] ↔ (termFrequency terms doc.tokens).isEmpty = true := by
  rw [countsOf, List.filterMap_eq_nil_iff, Std.ExtTreeMap.isEmpty_iff]
  constructor
  · intro h
    refine Std.ExtTreeMap.ext_getElem? fun term => ?_
    rw [getElem?_termFrequency, Std.ExtTreeMap.getElem?_empty]
    refine if_neg fun ⟨hterm, hmem⟩ => ?_
    have := h term hterm
    rw [if_pos hmem] at this
    cases this
  · intro h term hterm
    have hget := getElem?_termFrequency terms doc.tokens term
    rw [h, Std.ExtTreeMap.getElem?_empty] at hget
    split_ifs with hmem
    · rw [if_pos ⟨hterm, hmem⟩] at hget
      cases hget
    · rfl

variable {S : Type}

/-- The counts read off complete postings, in the order of the documents. -/
theorem toList_postedCounts {corpus : PreparedTextCorpus S} {terms : List String}
    (hpostings : ∀ term ∈ terms, corpus.postings[term]? =
      some (occurrences corpus.documents term)) :
    (F32.postedCounts corpus terms).toList = corpus.documents.zipIdx.filterMap fun entry =>
      if countsOf terms entry.1 = [] then none else some (entry.2, countsOf terms entry.1) := by
  have hterm : ∀ (term : String) (i : ℕ), valuesOf ((occurrences corpus.documents term).map
      fun posting => (posting.documentIndex, (term, posting.termFrequency))) i =
      (corpus.documents[i]?.bind fun doc =>
        if term ∈ doc.tokens then some (term, doc.tokens.count term) else none).toList := by
    intro term i
    rw [← filterMap_zipIdx, valuesOf, List.filterMap_map, occurrences, List.filterMap_filterMap]
    refine congrArg (List.filterMap · _) (funext fun entry => ?_)
    by_cases htoken : term ∈ entry.1.tokens
    · simp [htoken]
    · simp [htoken]
  have hvalues : ∀ i, valuesOf (terms.flatMap fun term => (corpus.postings[term]?.getD []).map
      fun posting => (posting.documentIndex, (term, posting.termFrequency))) i =
      corpus.documents[i]?.elim [] (countsOf terms) := by
    intro i
    rw [valuesOf_flatMap, List.flatMap_congr (g := fun term => (corpus.documents[i]?.bind fun doc =>
      if term ∈ doc.tokens then some (term, doc.tokens.count term) else none).toList),
      ← List.filterMap_eq_flatMap_toList]
    · cases corpus.documents[i]? with
      | none => simp
      | some doc => rfl
    · intro term hmem
      rw [hpostings term hmem, Option.getD_some, hterm]
  refine toList_eq_of_mem ?_ fun i counts => ?_
  · refine List.pairwise_filterMap.2 ((pairwise_zipIdx _ 0).imp fun {a b} hlt => ?_)
    intro c hc d hd
    split_ifs at hc hd
    obtain rfl := Option.some.inj hc
    obtain rfl := Option.some.inj hd
    exact hlt
  · rw [F32.postedCounts, getElem?_group, hvalues, List.mem_filterMap]
    constructor
    · rintro ⟨⟨doc, i'⟩, hentry, hsome⟩
      dsimp only at hsome
      split_ifs at hsome with hnil
      obtain ⟨rfl, rfl⟩ := Prod.mk.inj (Option.some.inj hsome)
      rw [List.mk_mem_zipIdx_iff_getElem?.1 hentry]
      exact if_neg hnil
    · intro hget
      cases hdoc : corpus.documents[i]? with
      | none =>
        rw [hdoc] at hget
        simp at hget
      | some doc =>
        rw [hdoc, Option.elim_some] at hget
        split_ifs at hget with hnil
        obtain rfl := Option.some.inj hget
        exact ⟨(doc, i), List.mk_mem_zipIdx_iff_getElem?.2 hdoc, if_neg hnil⟩

/-- A map that was filled term by term. -/
theorem getElem?_foldl_insert (f : String → ℕ) (terms : List String) (term : String) :
    (terms.foldl (fun counts t => counts.insert t (f t)) (∅ : TermCounts))[term]? =
      if term ∈ terms then some (f term) else none := by
  induction terms using List.reverseRecOn with
  | nil => simp
  | append_singleton terms t ih =>
    rw [List.foldl_append, List.foldl_cons, List.foldl_nil, Std.ExtTreeMap.getElem?_insert, ih]
    by_cases ht : t = term
    · subst ht
      simp
    · rw [if_neg (by simpa using ht)]
      simp [Ne.symm ht]

namespace F32

variable (ops : F32 S)

/-- A score depends on the counts of the query's terms only. -/
theorem bm25_congr {queryTerms : List String} {df df' : TermCounts}
    (h : ∀ term ∈ queryTerms, df[term]? = df'[term]?) (tf : TermCounts) (docLen docCount : ℕ)
    (avgLen : S) : ops.bm25FromTermFrequency queryTerms tf docLen docCount avgLen df =
      ops.bm25FromTermFrequency queryTerms tf docLen docCount avgLen df' := by
  refine List.foldl_ext _ _ _ fun score term hterm => ?_
  simp only [Std.ExtTreeMap.getD_eq_getD_getElem?, h term hterm]

/-- The postings give the scores that the documents give. -/
theorem scoreQueryFromPostings_eq {corpus : PreparedTextCorpus S} {queryTerms terms : List String}
    (hterms : ∀ term, term ∈ terms ↔ term ∈ queryTerms) (hnodup : terms.Nodup)
    (hpostings : ∀ term ∈ terms, corpus.postings[term]? =
      some (occurrences corpus.documents term) ∧ occurrences corpus.documents term ≠ []) :
    ops.scoreQueryFromPostings corpus queryTerms terms =
      ops.scoreMatching queryTerms corpus.docCount corpus.avgLen
        (matchingDocs queryTerms corpus.documents) := by
  have hdf : ∀ term ∈ queryTerms, (terms.foldl (fun df term =>
      match corpus.postings[term]? with
      | none => df
      | some postings => df.insert term postings.length) (∅ : TermCounts))[term]? =
      (documentFrequency (matchingDocs queryTerms corpus.documents))[term]? := by
    intro term hterm
    have hmem := (hterms term).2 hterm
    rw [getElem?_documentFrequency hterm (hpostings term hmem).2,
      List.foldl_ext _ (fun counts t => counts.insert t (occurrences corpus.documents t).length) _
        fun counts t ht => by rw [(hpostings t ht).1], getElem?_foldl_insert, if_pos hmem]
  rw [scoreQueryFromPostings, toList_postedCounts fun term hterm => (hpostings term hterm).1,
    scoreMatching, List.filterMap_filterMap, matchingDocs, List.filterMap_filterMap]
  refine List.filterMap_congr fun entry hentry => ?_
  have hget : corpus.documents[entry.2]? = some entry.1 := List.mem_zipIdx_iff_getElem?.1 hentry
  have hcounts := ofList_countsOf hnodup entry.1
  rw [termFrequency_congr hterms] at hcounts
  by_cases hnil : countsOf terms entry.1 = []
  · have hempty := countsOf_eq_nil_iff.1 hnil
    rw [termFrequency_congr hterms] at hempty
    simp [hnil, hempty]
  · have hempty : ¬ (termFrequency queryTerms entry.1.tokens).isEmpty = true := by
      rw [← termFrequency_congr hterms]
      exact fun h => hnil (countsOf_eq_nil_iff.2 h)
    rw [if_neg hnil, if_neg hempty, Option.bind_some, Option.bind_some, hget, Option.bind_some,
      hcounts]
    simp only [scoreDocument, ops.bm25_congr hdf]
    rfl

/-- **A prepared corpus scores every query as its documents are scored**, whatever query it was
prepared for. -/
theorem scoreQuery_prepared (first query : String) (docs : List (String × String)) :
    ops.scoreQueryWithStats (ops.fromDocumentsWithInitialScore first docs).1 query =
      (ops.fromDocumentsWithInitialScore query docs).2 := by
  by_cases hdocs : docs.isEmpty = true
  · simp [fromDocumentsWithInitialScore, scoreQueryWithStats, hdocs]
  · have hlength : docs.length ≠ 0 := by simpa using hdocs
    simp only [fromDocumentsWithInitialScore, hdocs, Bool.false_eq_true, if_false,
      scoreQueryWithStats, hlength, decide_false, Bool.or_false]
    have hterms : ∀ term, term ∈ termSet (tokenize query) ↔ term ∈ tokenize query := by
      intro term
      rw [termSet, List.mem_dedup, List.mem_mergeSort]
    split_ifs with hquery hposted
    · rfl
    · refine ops.scoreQueryFromPostings_eq hterms (List.nodup_dedup _) fun term hterm => ?_
      have hcontains := List.all_eq_true.1 hposted term hterm
      obtain ⟨postings, hget⟩ := Option.isSome_iff_exists.1
        (Std.ExtTreeMap.contains_eq_isSome_getElem?.symm.trans hcontains)
      obtain ⟨rfl, hne⟩ := getElem?_selectivePostings hget
      exact ⟨hget, hne⟩
    · simp only [matchingDocs, termFrequency_congr hterms]

theorem fromDocumentsWithInitialScore_scores (query : String) (docs : List (String × String)) :
    (ops.fromDocumentsWithInitialScore query docs).2 = ops.scoreCorpus query docs := by
  rw [fromDocumentsWithInitialScore, scoreCorpus]
  by_cases hdocs : docs.isEmpty = true
  · rw [if_pos hdocs, hdocs, Bool.or_true]
    rfl
  · rw [if_neg hdocs]
    rw [Bool.not_eq_true] at hdocs
    rw [hdocs, Bool.or_false]

/-- A corpus without postings is scanned. -/
theorem scoreQuery_fromDocuments (query : String) (docs : List (String × String)) :
    ops.scoreQueryWithStats (ops.fromDocuments docs) query = ops.scoreCorpus query docs := by
  rw [scoreQueryWithStats, scoreCorpus, fromDocuments]
  by_cases hdocs : docs.isEmpty = true
  · simp [hdocs]
  · have hlength : docs.length ≠ 0 := by simpa using hdocs
    have hterms : ∀ term, term ∈ termSet (tokenize query) ↔ term ∈ tokenize query := by
      intro term
      rw [termSet, List.mem_dedup, List.mem_mergeSort]
    simp only [hdocs, Bool.false_eq_true, if_false, hlength, decide_false, Bool.or_false]
    split_ifs with hquery hposted
    · rfl
    · -- The first term of the query has no postings.
      obtain ⟨term, hterm⟩ := List.exists_mem_of_ne_nil _ (by simpa using hquery)
      have hcontains := List.all_eq_true.1 hposted term ((hterms term).2 hterm)
      simp at hcontains
    · simp only [matchingDocs, termFrequency_congr hterms]

/-- **Preparing a corpus changes no score**: neither for the query that it is prepared with nor for
a later one, whichever terms have postings. -/
theorem prepared_corpus_scores (first query : String) (docs : List (String × String)) :
    ops.scoreQueryWithStats (ops.fromDocuments docs) query = ops.scoreCorpus query docs ∧
      ops.scoreQueryWithStats (ops.fromDocumentsWithInitialScore first docs).1 query =
        ops.scoreCorpus query docs ∧
      (ops.fromDocumentsWithInitialScore first docs).2 = ops.scoreCorpus first docs :=
  ⟨ops.scoreQuery_fromDocuments query docs,
    (ops.scoreQuery_prepared first query docs).trans
      (ops.fromDocumentsWithInitialScore_scores query docs),
    ops.fromDocumentsWithInitialScore_scores first docs⟩

end F32

end TraceDB
