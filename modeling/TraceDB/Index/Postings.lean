import TraceDB.Index.Artifact

/-!
# Postings of a text index

`score_text` reads the postings of each query term in each field, and collects for each record how
often the terms occur and how long the record is.

* `getElem?_addPostings` : the index has, under the key of a field and a term, the records with the
  term in the field;
* `totals_spec`, `getElem?_totals_df` : what a search collects of these.  Where a term or a record
  is found in several fields, the last field counts.
-/

namespace TraceDB

/-! ### Tokens -/

theorem tokenize_append (left right : List Char) {sep : Char} (hsep : sep.isAlphanum = false) :
    tokenize (String.ofList (left ++ sep :: right)) =
      tokenize (String.ofList left) ++ tokenize (String.ofList right) := by
  simp only [tokenize, String.toList_ofList]
  rw [List.splitOnP_append_cons _ _ (by simp [hsep]), List.filter_append, List.map_append]

theorem tokenize_intercalate (bodies : List String) :
    tokenize (" ".intercalate bodies) = bodies.flatMap tokenize := by
  induction bodies with
  | nil => decide
  | cons body bodies ih =>
    cases bodies with
    | nil => simp
    | cons next bodies =>
      rw [String.intercalate_cons_cons, List.flatMap_cons, ← ih]
      have happend := tokenize_append body.toList (" ".intercalate (next :: bodies)).toList
        (by decide : ' '.isAlphanum = false)
      rw [String.ofList_toList, String.ofList_toList] at happend
      rw [← happend]
      refine congrArg tokenize ?_
      rw [← String.toList_inj]
      simp

/-- The pieces of a split have no separators. -/
theorem forall_mem_splitOnP {α : Type} {p : α → Bool} (xs : List α) :
    ∀ piece ∈ xs.splitOnP p, ∀ x ∈ piece, p x = false := by
  induction xs with
  | nil => simp
  | cons x xs ih =>
    rw [List.splitOnP_cons_eq_if_modifyHead]
    split_ifs with hx
    · exact List.forall_mem_cons.2 ⟨by simp, ih⟩
    · cases hsplit : xs.splitOnP p with
      | nil => simp
      | cons first rest =>
        rw [hsplit] at ih
        obtain ⟨hfirst, hrest⟩ := List.forall_mem_cons.1 ih
        exact List.forall_mem_cons.2 ⟨List.forall_mem_cons.2 ⟨by simpa using hx, hfirst⟩, hrest⟩

theorem isAlphanum_toLower {c : Char} (h : c.isAlphanum = true) : c.toLower.isAlphanum = true := by
  by_cases hupper : c.val ≥ 'A'.val ∧ c.val ≤ 'Z'.val
  · have hlow : 65 ≤ c.toNat := UInt32.le_iff_toNat_le.1 hupper.1
    have hhigh : c.toNat ≤ 90 := UInt32.le_iff_toNat_le.1 hupper.2
    have hletters : ∀ n < 128, (Char.ofNat n).isAlphanum = true →
        (Char.ofNat n).toLower.isAlphanum = true := by decide
    have hletter := hletters c.toNat (by omega)
    rw [Char.ofNat_toNat] at hletter
    exact hletter h
  · rwa [toLower_of_not_upper hupper]

theorem nul_notMem_tokenize {input token : String} (h : token ∈ tokenize input) :
    '\x00' ∉ token.toList := by
  obtain ⟨piece, hpiece, rfl⟩ := List.mem_map.1 h
  have hplain := forall_mem_splitOnP _ piece (List.mem_filter.1 hpiece).1
  rw [String.toList_ofList]
  intro hnul
  obtain ⟨c, hc, hlower⟩ := List.mem_map.1 hnul
  have halnum := isAlphanum_toLower (by simpa using hplain c hc)
  rw [hlower] at halnum
  exact absurd halnum (by decide)

theorem postingKey_inj {field field' term term' : String} (hterm : '\x00' ∉ term.toList)
    (hterm' : '\x00' ∉ term'.toList) :
    postingKey field term = postingKey field' term' ↔ field = field' ∧ term = term' := by
  refine ⟨fun h => ?_, fun ⟨hfield, hsame⟩ => by rw [hfield, hsame]⟩
  have hlist : term.toList.reverse ++ '\x00' :: field.toList.reverse =
      term'.toList.reverse ++ '\x00' :: field'.toList.reverse := by
    have hreverse := congrArg (fun key : String => key.toList.reverse) h
    simpa [postingKey] using hreverse
  obtain ⟨hsame, hfield⟩ := Text.append_sep_inj (by simpa using hterm) (by simpa using hterm') hlist
  exact ⟨String.toList_inj.1 (List.reverse_inj.1 hfield),
    String.toList_inj.1 (List.reverse_inj.1 hsame)⟩

/-! ### Postings -/

variable {S : Type}

/-- The tokens of one text field. -/
def IndexRecord.tokensIn (record : IndexRecord S) (field : String) : List String :=
  match record.text[field]? with
  | none => []
  | some body => tokenize body

/-- The postings of a term in one field, record by record. -/
def postingsOf (records : List (IndexRecord S)) (field term : String) : List TextIndexPosting :=
  records.filterMap fun record =>
    if term ∈ record.tokensIn field then
      some ⟨record.recordId, (record.tokensIn field).count term, (record.tokensIn field).length⟩
    else none

/-- The entries that a record adds to the postings. -/
def IndexRecord.postingEntries (record : IndexRecord S) : List (String × TextIndexPosting) :=
  record.text.toList.flatMap fun text => (termFrequencies (tokenize text.2)).toList.map fun count =>
    (postingKey text.1 count.1, ⟨record.recordId, count.2, (tokenize text.2).length⟩)

theorem termFrequencies_eq (tokens : List String) : termFrequencies tokens = tally tokens := by
  simp only [termFrequencies, tally, Std.ExtTreeMap.getD_eq_getD_getElem?]

theorem foldl_addPostings (records : List (IndexRecord S)) :
    records.foldl addPostings ∅ = group (records.flatMap IndexRecord.postingEntries) := by
  rw [group, List.foldl_flatMap]
  refine congrArg (records.foldl · ∅) (funext fun postings => funext fun record => ?_)
  simp only [addPostings, IndexRecord.postingEntries, List.foldl_flatMap, List.foldl_map,
    Std.ExtTreeMap.getD_eq_getD_getElem?]

/-- What one record adds under the key of a field and a term. -/
theorem valuesOf_postingEntries (record : IndexRecord S) (field : String) {term : String}
    (hterm : '\x00' ∉ term.toList) :
    valuesOf record.postingEntries (postingKey field term) =
      (if term ∈ record.tokensIn field then
        some (⟨record.recordId, (record.tokensIn field).count term,
          (record.tokensIn field).length⟩ :
          TextIndexPosting)
      else none).toList := by
  -- In the body of one field, the term has one entry; the entries of other fields have other keys.
  have hbody : ∀ name body, valuesOf ((termFrequencies (tokenize body)).toList.map fun count =>
      (postingKey name count.1,
        (⟨record.recordId, count.2, (tokenize body).length⟩ : TextIndexPosting)))
      (postingKey field term) =
      (if name = field then if term ∈ tokenize body then
        some (⟨record.recordId, (tokenize body).count term,
          (tokenize body).length⟩ : TextIndexPosting)
        else none else none).toList := by
    intro name body
    have hone := filterMap_toList_key (termFrequencies (tokenize body)) (fun count =>
      if name = field then some (⟨record.recordId, count,
        (tokenize body).length⟩ : TextIndexPosting)
      else none) term
    rw [valuesOf, List.filterMap_map]
    refine Eq.trans (List.filterMap_congr fun count hcount => ?_) (hone.trans ?_)
    · have htoken : '\x00' ∉ count.1.toList := by
        rw [Std.ExtTreeMap.mem_toList_iff_getElem?_eq_some, termFrequencies_eq,
          getElem?_tally] at hcount
        split_ifs at hcount with hmem
        exact nul_notMem_tokenize hmem
      simp only [Function.comp_apply, postingKey_inj htoken hterm]
      by_cases hname : name = field <;> by_cases hcount : count.1 = term <;> simp [hname, hcount]
    · rw [termFrequencies_eq, getElem?_tally]
      by_cases hname : name = field <;> by_cases hmem : term ∈ tokenize body <;> simp [hname, hmem]
  have hfields := filterMap_toList_key record.text (fun body => if term ∈ tokenize body then
    some (⟨record.recordId, (tokenize body).count term, (tokenize body).length⟩ : TextIndexPosting)
    else none) field
  rw [IndexRecord.postingEntries, valuesOf_flatMap]
  simp only [hbody]
  rw [← List.filterMap_eq_flatMap_toList, hfields, IndexRecord.tokensIn]
  cases record.text[field]? with
  | none => simp
  | some body => rfl

/-- The postings of the index. -/
theorem getElem?_addPostings (records : List (IndexRecord S)) (field : String) {term : String}
    (hterm : '\x00' ∉ term.toList) :
    (records.foldl addPostings ∅)[postingKey field term]? =
      if postingsOf records field term = []
        then none else some (postingsOf records field term) := by
  rw [foldl_addPostings, getElem?_group, valuesOf_flatMap]
  simp only [valuesOf_postingEntries _ _ hterm]
  rw [← List.filterMap_eq_flatMap_toList]
  rfl

/-! ### Scores -/

/-- `bm25_from_term_frequency`, or another function of its arguments. -/
abbrev Bm25 (S : Type) := List String → TermCounts → ℕ → ℕ → S → TermCounts → S

/-- `TextScore`. -/
structure TextScore (S : Type) where
  recordId : String
  score : S

/-- What a search adds up over the postings that it reads. -/
structure PostingTotals where
  tfByDoc : Std.ExtTreeMap String TermCounts compare
  docLenByDoc : TermCounts
  df : TermCounts

/-- One posting of a term. -/
def PostingTotals.addPosting (term : String) (totals : PostingTotals) (posting : TextIndexPosting) :
    PostingTotals where
  tfByDoc := totals.tfByDoc.insert posting.recordId
    ((totals.tfByDoc.getD posting.recordId ∅).insert term posting.termFrequency)
  docLenByDoc := totals.docLenByDoc.insert posting.recordId posting.docLen
  df := totals.df

/-- The postings of a term in one field. -/
def PostingTotals.addPostings (totals : PostingTotals) (term : String)
    (postings : List TextIndexPosting) : PostingTotals :=
  postings.foldl (PostingTotals.addPosting term)
    { totals with df := totals.df.insert term postings.length }

namespace TextIndexArtifact

/-- The totals of the terms in the fields. -/
def totals (artifact : TextIndexArtifact S) (fields terms : List String) : PostingTotals :=
  fields.foldl (fun totals field =>
    terms.foldl (fun totals term =>
      match artifact.postings[postingKey field term]? with
      | none => totals
      | some postings => totals.addPostings term postings) totals) ⟨∅, ∅, ∅⟩

/-- The fields that a search reads. -/
def fields (artifact : TextIndexArtifact S) : Option String → List String
  | some field => [field]
  | none => (Std.ExtTreeSet.ofList (artifact.documents.flatMap fun doc => doc.fields.keys)
      compare).toList

variable (ops : F32 S) (bm25 : Bm25 S)

/-- `score_text`. -/
def scoreText (artifact : TextIndexArtifact S) (query : String) (textField : Option String) :
    List (TextScore S) :=
  let queryTerms := tokenize query
  if queryTerms.isEmpty || artifact.docCount = 0 then []
  else
    let totals := artifact.totals (artifact.fields textField) (F32.termSet queryTerms)
    sortBy (fun left right => ops.scoreOrder left.score right.score)
      (totals.tfByDoc.toList.filterMap fun entry =>
        let score := bm25 queryTerms entry.2 (totals.docLenByDoc.getD entry.1 0) artifact.docCount
          artifact.avgLen totals.df
        if ops.gt score (ops.ofRat 0) then some ⟨entry.1, score⟩ else none)

end TextIndexArtifact

/-! ### Totals -/

/-- The posting lists that a search reads, in its order. -/
def TextIndexArtifact.visits (artifact : TextIndexArtifact S) (fields terms : List String) :
    List (String × List TextIndexPosting) :=
  fields.flatMap fun field => terms.filterMap fun term =>
    artifact.postings[postingKey field term]?.map (term, ·)

theorem TextIndexArtifact.totals_eq (artifact : TextIndexArtifact S) (fields terms : List String) :
    artifact.totals fields terms =
      (artifact.visits fields terms).foldl (fun totals visit => totals.addPostings visit.1 visit.2)
        ⟨∅, ∅, ∅⟩ := by
  rw [totals, visits, List.foldl_flatMap]
  refine congrArg (fields.foldl · _) (funext fun totals => funext fun field => ?_)
  rw [List.foldl_filterMap]
  refine congrArg (terms.foldl · totals) (funext fun totals => funext fun term => ?_)
  cases artifact.postings[postingKey field term]? <;> rfl

namespace PostingTotals

theorem addPostings_spec (totals : PostingTotals) (term : String)
    (postings : List TextIndexPosting) :
    totals.addPostings term postings =
      ⟨(postings.map fun posting => (posting.recordId, (term, posting.termFrequency))).foldl
          (fun tfs e => tfs.insert e.1 ((tfs.getD e.1 ∅).insert e.2.1 e.2.2)) totals.tfByDoc,
        (postings.map fun posting => (posting.recordId, posting.docLen)).foldl
          (fun lens e => lens.insert e.1 e.2) totals.docLenByDoc,
        totals.df.insert term postings.length⟩ := by
  rw [addPostings, List.foldl_map, List.foldl_map]
  generalize totals.df.insert term postings.length = df
  induction postings generalizing totals with
  | nil => rfl
  | cons posting postings ih => exact ih (totals.addPosting term posting)

/-- Each total is one over all visits. -/
theorem foldl_addPostings_spec (totals : PostingTotals)
    (visits : List (String × List TextIndexPosting)) :
    visits.foldl (fun totals visit => totals.addPostings visit.1 visit.2) totals =
      ⟨(visits.flatMap fun visit => visit.2.map fun posting =>
          (posting.recordId, (visit.1, posting.termFrequency))).foldl
          (fun tfs e => tfs.insert e.1 ((tfs.getD e.1 ∅).insert e.2.1 e.2.2)) totals.tfByDoc,
        (visits.flatMap fun visit => visit.2.map fun posting =>
          (posting.recordId, posting.docLen)).foldl
          (fun lens e => lens.insert e.1 e.2) totals.docLenByDoc,
        (visits.map fun visit => (visit.1, visit.2.length)).foldl
          (fun df e => df.insert e.1 e.2) totals.df⟩ := by
  induction visits generalizing totals with
  | nil => rfl
  | cons visit visits ih =>
    rw [List.foldl_cons, ih, addPostings_spec]
    simp only [List.flatMap_cons, List.foldl_append, List.map_cons, List.foldl_cons]

end PostingTotals

/-! ### The totals of a record -/

/-- What a search finds of a record: the term, how often it occurs in a field and the length of the
field. -/
def IndexRecord.hits (record : IndexRecord S) (fields terms : List String) :
    List (String × ℕ × ℕ) :=
  fields.flatMap fun field => terms.filterMap fun term =>
    if term ∈ record.tokensIn field then
      some (term, (record.tokensIn field).count term, (record.tokensIn field).length)
    else none

theorem mem_hits {record : IndexRecord S} {fields terms : List String} {hit : String × ℕ × ℕ} :
    hit ∈ record.hits fields terms ↔ ∃ field ∈ fields, hit.1 ∈ terms ∧
      hit.1 ∈ record.tokensIn field ∧
        hit.2 = ((record.tokensIn field).count hit.1, (record.tokensIn field).length) := by
  simp only [IndexRecord.hits, List.mem_flatMap, List.mem_filterMap]
  constructor
  · rintro ⟨field, hfield, term, hterm, hsome⟩
    split_ifs at hsome with hmem
    obtain rfl := Option.some.inj hsome
    exact ⟨field, hfield, hterm, hmem, rfl⟩
  · rintro ⟨field, hfield, hterm, hmem, hcounts⟩
    refine ⟨field, hfield, hit.1, hterm, ?_⟩
    rw [if_pos hmem, ← hcounts]

/-- The record ids are distinct. -/
def DistinctIds (records : List (IndexRecord S)) : Prop :=
  (records.map IndexRecord.recordId).Nodup

section
variable {records : List (IndexRecord S)} (fields : List String) {terms : List String}

/-- The postings of one record. -/
theorem valuesOf_postingsOf {β : Type} (hdistinct : DistinctIds records) (field term : String)
    (value : TextIndexPosting → β) :
    (∀ record ∈ records, valuesOf ((postingsOf records field term).map fun posting =>
      (posting.recordId, value posting)) record.recordId =
      (if term ∈ record.tokensIn field then some (value ⟨record.recordId,
        (record.tokensIn field).count term, (record.tokensIn field).length⟩) else none).toList) ∧
    (∀ id ∉ records.map IndexRecord.recordId,
      valuesOf ((postingsOf records field term).map fun posting =>
      (posting.recordId, value posting)) id = []) := by
  have hkeys : (records.map fun record => (record.recordId, record)).Pairwise
      fun a b => a.1 ≠ b.1 := by
    refine List.pairwise_map.2 ?_
    rw [DistinctIds, List.Nodup, List.pairwise_map] at hdistinct
    exact hdistinct
  have hvalues : ∀ id, valuesOf ((postingsOf records field term).map fun posting =>
      (posting.recordId, value posting)) id =
      (records.map fun record => (record.recordId, record)).filterMap fun e => if e.1 = id then
        if term ∈ e.2.tokensIn field then some (value ⟨e.2.recordId,
          (e.2.tokensIn field).count term, (e.2.tokensIn field).length⟩) else none else none := by
    intro id
    rw [valuesOf, postingsOf, List.map_filterMap, List.filterMap_filterMap, List.filterMap_map]
    refine congrArg (List.filterMap · records) (funext fun record => ?_)
    by_cases hmem : term ∈ record.tokensIn field <;> simp [hmem]
  constructor
  · intro record hrecord
    rw [hvalues]
    exact (filterMap_key hkeys (fun record => if term ∈ record.tokensIn field then
      some (value ⟨record.recordId, (record.tokensIn field).count term,
        (record.tokensIn field).length⟩) else none) record.recordId).1 record
      (List.mem_map_of_mem hrecord)
  · intro id hid
    rw [hvalues]
    refine (filterMap_key hkeys (fun record => if term ∈ record.tokensIn field then
      some (value ⟨record.recordId, (record.tokensIn field).count term,
        (record.tokensIn field).length⟩) else none) id).2 fun record hmem => hid ?_
    obtain ⟨record, hrecord, heq⟩ := List.mem_map.1 hmem
    exact List.mem_map.2 ⟨record, hrecord, (Prod.mk.inj heq).1⟩

variable {artifact : TextIndexArtifact S}
  (hpostings : artifact.postings = records.foldl addPostings ∅)
  (hterms : ∀ term ∈ terms, '\x00' ∉ term.toList)

include hpostings hterms

/-- The posting lists of an index. -/
theorem visits_eq : artifact.visits fields terms =
    fields.flatMap fun field => terms.filterMap fun term =>
      if postingsOf records field term = []
        then none else some (term, postingsOf records field term) := by
  rw [TextIndexArtifact.visits]
  refine List.flatMap_congr fun field _ => List.filterMap_congr fun term hterm => ?_
  rw [hpostings, getElem?_addPostings records field (hterms term hterm)]
  split_ifs <;> rfl

/-- What the posting lists say, term by term in each field. -/
theorem flatMap_visits {β : Type} (value : String → TextIndexPosting → β) :
    ((artifact.visits fields terms).flatMap fun visit => visit.2.map (value visit.1)) =
      fields.flatMap fun field => terms.flatMap fun term =>
        (postingsOf records field term).map (value term) := by
  rw [visits_eq fields hpostings hterms, List.flatMap_assoc]
  refine List.flatMap_congr fun field _ => ?_
  clear hterms
  induction terms with
  | nil => rfl
  | cons term terms ih =>
    rw [List.filterMap_cons, List.flatMap_cons, ← ih]
    by_cases hnil : postingsOf records field term = [] <;> simp [hnil]

/-- The values that the posting lists have for a record. -/
theorem valuesOf_visits {β : Type} (hdistinct : DistinctIds records) (value : String × ℕ × ℕ → β) :
    (∀ record ∈ records, valuesOf ((artifact.visits fields terms).flatMap fun visit =>
      visit.2.map fun posting =>
        (posting.recordId, value (visit.1, posting.termFrequency, posting.docLen)))
      record.recordId = (record.hits fields terms).map value) ∧
    ∀ id ∉ records.map IndexRecord.recordId,
      valuesOf ((artifact.visits fields terms).flatMap fun visit => visit.2.map fun posting =>
        (posting.recordId, value (visit.1, posting.termFrequency, posting.docLen))) id = [] := by
  rw [flatMap_visits fields hpostings hterms fun term posting =>
    (posting.recordId, value (term, posting.termFrequency, posting.docLen))]
  simp only [valuesOf_flatMap]
  constructor
  · intro record hrecord
    simp only [(valuesOf_postingsOf hdistinct _ _ _).1 record hrecord]
    rw [IndexRecord.hits, List.map_flatMap]
    refine List.flatMap_congr fun field _ => ?_
    rw [← List.filterMap_eq_flatMap_toList, List.map_filterMap]
    refine List.filterMap_congr fun term _ => ?_
    split_ifs <;> rfl
  · intro id hid
    simp only [(valuesOf_postingsOf hdistinct _ _ _).2 id hid]
    simp

/-- The totals of the records that a search finds. -/
theorem totals_spec (hdistinct : DistinctIds records) :
    (∀ record ∈ records,
      (artifact.totals fields terms).tfByDoc[record.recordId]? =
        (if record.hits fields terms = [] then none else
          some ((record.hits fields terms).foldl (fun tf hit => tf.insert hit.1 hit.2.1) ∅)) ∧
      (artifact.totals fields terms).docLenByDoc[record.recordId]? =
        ((record.hits fields terms).map fun hit => hit.2.2).getLast?) ∧
    ∀ id ∉ records.map IndexRecord.recordId,
    (artifact.totals fields terms).tfByDoc[id]? = none := by
  rw [TextIndexArtifact.totals_eq, PostingTotals.foldl_addPostings_spec]
  have hcounts := valuesOf_visits fields hpostings hterms hdistinct fun hit => (hit.1, hit.2.1)
  have hlengths := valuesOf_visits fields hpostings hterms hdistinct fun hit => hit.2.2
  refine ⟨fun record hrecord => ⟨?_, ?_⟩, fun id hid => ?_⟩
  · dsimp only
    rw [getElem?_foldl_update (fun (tf : TermCounts) (hit : String × ℕ) => tf.insert hit.1 hit.2) ∅,
      hcounts.1 record hrecord]
    simp only [List.map_eq_nil_iff, List.foldl_map]
  · rw [getElem?_foldl_insert_last, hlengths.1 record hrecord]
  · dsimp only
    rw [getElem?_foldl_update (fun (tf : TermCounts) (hit : String × ℕ) => tf.insert hit.1 hit.2) ∅,
      hcounts.2 id hid]
    rfl

/-- In how many records a search finds a term: those with the term in the last field that has it. -/
theorem getElem?_totals_df (term : String) :
    (artifact.totals fields terms).df[term]? = none ∧
        (term ∉ terms ∨ ∀ field ∈ fields, postingsOf records field term = []) ∨
      term ∈ terms ∧ ∃ field ∈ fields, postingsOf records field term ≠ [] ∧
        (artifact.totals fields terms).df[term]? = some (postingsOf records field term).length := by
  generalize hcounts : valuesOf ((artifact.visits fields terms).map fun visit =>
    (visit.1, visit.2.length)) term = counts
  have hget : (artifact.totals fields terms).df[term]? = counts.getLast? := by
    rw [← hcounts]
    rw [TextIndexArtifact.totals_eq, PostingTotals.foldl_addPostings_spec,
      getElem?_foldl_insert_last]
  have hmem : ∀ count, count ∈ counts ↔
      term ∈ terms ∧ ∃ field ∈ fields, postingsOf records field term ≠ [] ∧
        (postingsOf records field term).length = count := by
    intro count
    rw [← hcounts, visits_eq fields hpostings hterms]
    simp only [valuesOf, List.mem_filterMap, List.mem_map, List.mem_flatMap]
    constructor
    · rintro ⟨_, ⟨_, ⟨field, hfield, other, hother, hvisit⟩, rfl⟩, hsome⟩
      split_ifs at hvisit with hnil
      obtain rfl := Option.some.inj hvisit
      split_ifs at hsome with hsame
      obtain rfl := hsame
      exact ⟨hother, field, hfield, hnil, Option.some.inj hsome⟩
    · rintro ⟨hterm, field, hfield, hne, rfl⟩
      exact ⟨_, ⟨_, ⟨field, hfield, term, hterm, if_neg hne⟩, rfl⟩, if_pos rfl⟩
  rw [hget]
  cases hlast : counts.getLast? with
  | none =>
    rw [List.getLast?_eq_none_iff] at hlast
    refine .inl ⟨rfl, ?_⟩
    by_contra hnot
    push Not at hnot
    obtain ⟨hterm, field, hfield, hne⟩ := hnot
    have hcount := (hmem _).2 ⟨hterm, field, hfield, hne, rfl⟩
    rw [hlast] at hcount
    cases hcount
  | some count =>
    obtain ⟨hterm, field, hfield, hne, hcount⟩ := (hmem count).1 (List.mem_of_getLast? hlast)
    exact .inr ⟨hterm, field, hfield, hne, congrArg some hcount.symm⟩

end

end TraceDB
