import TraceDB.Query.Hybrid

/-!
# Sample queries

A reference for the library functions of queries, with rational numbers as scores, and handles whose
cases are published in a segment and then written again.
-/

namespace TraceDB

/-! ### Scores -/

/-- The square root of a rational number, exact for squares of rational numbers. -/
def ratSqrt (x : ℚ) : ℚ := mkRat (Nat.sqrt x.num.toNat) (Nat.sqrt x.den)

/-- Three terms of the series of the logarithm at 1.  It has the sign of the logarithm. -/
def ratLn (x : ℚ) : ℚ :=
  let y := (x - 1) / (x + 1)
  2 * (y + y * y * y / 3 + y * y * y * y * y / 5)

/-- Scores without rounding. -/
def F32.rational : F32 ℚ where
  ofRat := id
  add x y := x + y
  sub x y := x - y
  mul x y := x * y
  div x y := x / y
  max x y := if Rat.blt x y then y else x
  min x y := if Rat.blt y x then y else x
  abs x := if Rat.blt x 0 then -x else x
  ln := ratLn
  sqrt := ratSqrt
  partialCmp x y := some (if Rat.blt x y then .lt else if Rat.blt y x then .gt else .eq)
  isFinite _ := true

/-! ### JSON -/

/-- The value of a field of an object. -/
def Value.field? (fields : List (String × Value)) (name : String) : Option Value :=
  (fields.find? fun field => field.1 = name).map Prod.snd

/-- A JSON truth value. -/
def Value.asBool : Value → Option Bool
  | .bool b => some b
  | _ => none

/-- `VisibilityMode` as JSON. -/
def VisibilityMode.ofText (text : String) : Option VisibilityMode :=
  if text = "Tenant" then some .tenant
  else if text = "Public" then some .isPublic
  else if text = "Acl" then some .acl
  else if text = "Hidden" then some .hidden
  else none

/-- `AclEntry` as JSON. -/
def AclEntry.ofValue : Value → Option AclEntry
  | .object fields => do
    let userId ← (Value.field? fields "user_id").bind Value.asStr
    let allow ← (Value.field? fields "allow").bind Value.asBool
    some ⟨userId, allow⟩
  | _ => none

/-- `RetentionPolicy` as JSON. -/
def isRetentionPolicy : Value → Bool
  | .object fields => ((Value.field? fields "legal_hold").bind Value.asBool).isSome
  | _ => false

/-- `Policy` as a JSON object. -/
def Policy.ofValue : Value → Option Policy
  | .object fields => do
    let tenantId ← (Value.field? fields "tenant_id").bind Value.asStr
    let visibility ← ((Value.field? fields "visibility").bind Value.asStr).bind
      VisibilityMode.ofText
    let acl ← ((Value.field? fields "acl").bind Value.asArray).bind fun items =>
      items.mapM AclEntry.ofValue
    let _ ← (Value.field? fields "sensitivity").bind Value.asStr
    let retention ← Value.field? fields "retention"
    let suppressFromAi ← (Value.field? fields "suppress_from_ai").bind Value.asBool
    let _ ← (Value.field? fields "allow_embedding").bind Value.asBool
    let _ ← (Value.field? fields "allow_training").bind Value.asBool
    if isRetentionPolicy retention then some ⟨tenantId, visibility, acl, suppressFromAi⟩ else none
  | _ => none

/-- The rational number of a JSON number. -/
def Number.toRat : Number → ℚ
  | .posInt n => n.toNat
  | .negInt n => n.toInt
  | .float bits =>
    let exponent := bits.toNat / 2 ^ 52 % 2 ^ 11
    let fraction := bits.toNat % 2 ^ 52
    let (mantissa, shift) := if exponent = 0 then (fraction, 1) else (fraction + 2 ^ 52, exponent)
    let magnitude := mkRat (mantissa * 2 ^ shift : ℕ) (2 ^ 1075)
    if 2 ^ 63 ≤ bits.toNat then -magnitude else magnitude

/-- A text of a query, up to the numbers in it. -/
def queryDigestText (query : HybridQuery ℚ) : String :=
  let optional := fun text : Option String => (text.map Value.string).getD .null
  Value.text (.object [("table", .string query.table), ("tenant_id", .string query.tenantId),
    ("text_field", optional query.textField), ("text", optional query.text),
    ("vector_field", optional query.vectorField),
    ("vector", ((query.vector.map fun values =>
      Value.array (values.map fun x => .string (toString x.num ++ "/" ++ toString x.den)))).getD
        .null),
    ("scalar_eq", .object query.scalarEq.toList), ("graph_seed", optional query.graphSeed),
    ("temporal_as_of",
      ((query.temporalAsOf.map fun n => Value.number (.posInt (.ofNat n)))).getD .null),
    ("top_k", .number (.posInt (.ofNat query.topK))), ("explain", .bool query.explain)])

/-- The reference format of queries. -/
def QueryFormat.reference : QueryFormat ℚ where
  toF32 := .rational
  toCursorFormat := .reference
  policyFromValue := Policy.ofValue
  numberAsF32 := Number.toRat
  queryText := queryDigestText
  scalarEqText scalarEq := Value.text (.object scalarEq.toList)

/-- A directory without vector indexes. -/
def IndexFiles.none : IndexFiles ℚ where
  validateReady _ := .ok ()
  readVector _ := .ok Option.none

/-- A query for everything in the table of cases, as the user `u` of the tenant `t` asks it. -/
def casesQuery : HybridQuery ℚ where
  table := "cases"
  tenantId := "t"
  cursor := Option.none
  textField := Option.none
  text := Option.none
  vectorField := Option.none
  vector := Option.none
  scalarEq := ∅
  graphSeed := Option.none
  temporalAsOf := Option.none
  topK := 1
  freshness := .strict
  explain := false

/-- An environment without a signing key. -/
def CursorEnv.unsigned : CursorEnv := ⟨.ok Option.none, 900, 0⟩

/-! ### Published cases -/

/-- The handle with the cases, after a publication and more operations. -/
def publishedDb (cases : List RecordInput) (ops : List Op) : Db :=
  ((HandleCall.publish "s1").after .reference (casesDb cases)).runAll .reference ops

theorem reachable_publishedDb (cases : List RecordInput) (ops : List Op) :
    Reachable .reference "db" (publishedDb cases ops) :=
  ((reachable_casesDb cases).keepsPast_call (.publish "s1")).1.runAll ops

/-- The handle after a new segment is published. -/
def Db.withSegment (F : EngineFormat) (db : Db) (segmentId : String) : Db :=
  let object := SegmentObject.fromRecords segmentId (db.manifest.segments.length + 1)
    db.segmentRecordsForSnapshot
  let manifest := sealManifest F
    (Db.manifestWithSegment db.manifest db.manifest.segments db.manifest.indexes object)
  { db with
    manifest := manifest
    disk := { db.disk with
      segments := db.disk.segments.insert segmentId object
      manifest := some (F.manifestCodec.encode manifest)
      manifestBak := some (F.manifestCodec.encode db.manifest)
      manifestTmp := none } }

theorem Synced.publishSegment_new {F : EngineFormat} {db : Db} {entries : List WalEntry}
    (h : Synced F db entries) {segmentId : String} (hname : Text.isBlank segmentId = false)
    (hmanifest : (db.manifest.segments.find? fun segment => segment.segmentId = segmentId) = none)
    (hobject : db.disk.segments[segmentId]? = none) :
    db.publishSegment F segmentId = .ok (db.withSegment F segmentId) := by
  have hnamed : ¬ Text.isBlank segmentId = true := by
    rw [hname]
    decide
  rw [Db.publishSegment, Db.publishSegmentWithParentGeneration,
    readManifest_of_manifest h.isSealed h.manifestFile, Except.ok_bind, if_neg (not_not.2 rfl)]
  have hfile : ({ db.disk with
      segments := (db.withSegment F segmentId).disk.segments } : Disk).manifest =
      some (F.manifestCodec.encode db.manifest) := h.manifestFile
  have hwrite := writeManifest_of_manifest h.isSealed hfile
  simp only [Db.withSegment] at hwrite
  simp only [hmanifest, publishSegmentRecords, hobject, if_neg hnamed, Except.ok_bind, hwrite]
  rfl

/-- The handle after some operations, a publication and more operations. -/
def sealedDb (setup later : List Op) : Db :=
  ((HandleCall.publish "s1").after .reference
    ((initialDb .reference "db").runAll .reference setup)).runAll .reference later

theorem reachable_sealedDb (setup later : List Op) :
    Reachable .reference "db" (sealedDb setup later) :=
  ((((Reachable.opened (open_empty_eq "db")).runAll setup).keepsPast_call
    (.publish "s1")).1).runAll later

/-- What the handle shows, by evaluation. -/
theorem sealedDb_shows (setup later : List Op) {P : Db → Prop} [DecidablePred P]
    (h : (((initialDb .reference "db").commitAllSmall [] setup).any fun after =>
        after.1.manifest.segments.isEmpty && after.1.disk.segments["s1"]?.isNone &&
          ((after.1.withSegment .reference "s1").commitAllSmall after.2 later).any fun last =>
            decide (P last.1)) = true) :
    P (sealedDb setup later) := by
  obtain ⟨⟨after, entries⟩, hcommits, h⟩ := (Option.any_eq_true _ _).1 h
  obtain ⟨hnew, h⟩ := Bool.and_eq_true_iff.1 h
  obtain ⟨hmanifest, hobject⟩ := Bool.and_eq_true_iff.1 hnew
  obtain ⟨⟨last, entries'⟩, hlast, hP⟩ := (Option.any_eq_true _ _).1 h
  obtain ⟨hsetup, hsync⟩ := (synced_initialDb "db").runAll_of_commitAllSmall hcommits
  have hpublish : after.publishSegment .reference "s1" =
      .ok (after.withSegment .reference "s1") := by
    refine hsync.publishSegment_new (by decide) ?_ (Option.isNone_iff_eq_none.1 hobject)
    rw [List.isEmpty_iff.1 hmanifest]
    rfl
  have hafter : (HandleCall.publish "s1").after .reference
      ((initialDb .reference "db").runAll .reference setup) =
        after.withSegment .reference "s1" := by
    rw [HandleCall.after, hsetup, hpublish]
    rfl
  have hsynced := hsync.published (hsync.publishSegment_cases hpublish)
  rw [sealedDb, hafter, (hsynced.runAll_of_commitAllSmall hlast).1]
  exact of_decide_eq_true hP

/-- What the handle with published cases shows, by evaluation. -/
theorem publishedDb_shows (cases : List RecordInput) (ops : List Op) {P : Db → Prop}
    [DecidablePred P]
    (h : (((initialDb .reference "db").commitAllSmall []
      [.applySchema casesSchema none, .putBatch cases none]).any fun after =>
        after.1.manifest.segments.isEmpty && after.1.disk.segments["s1"]?.isNone &&
          ((after.1.withSegment .reference "s1").commitAllSmall after.2 ops).any fun last =>
            decide (P last.1)) = true) :
    P (publishedDb cases ops) :=
  sealedDb_shows _ _ h

/-! ### Many copies -/

/-- A new segment adds the records of the handle to what queries read. -/
theorem sealedSegmentRecords_withSegment {F : EngineFormat} {S : Type} {index : IndexFiles S}
    (hready : ∀ segmentId, index.validateReady segmentId = .ok ()) {db : Db} {segmentId : String}
    (hnew : ∀ segment ∈ db.manifest.segments, segment.segmentId ≠ segmentId)
    {table tenantId : String} {records : List SegmentRecord}
    (h : db.sealedSegmentRecords index table tenantId = .ok records) :
    (db.withSegment F segmentId).sealedSegmentRecords index table tenantId =
      .ok (records ++ db.segmentRecordsForSnapshot.filter fun record =>
        decide (record.table = table ∧ record.tenantId = tenantId)) := by
  have hsegments : (db.withSegment F segmentId).manifest.segments = db.manifest.segments ++
      [(SegmentObject.fromRecords segmentId (db.manifest.segments.length + 1)
        db.segmentRecordsForSnapshot).manifest] := rfl
  have hobjects : (db.withSegment F segmentId).disk.segments = db.disk.segments.insert segmentId
      (.fromRecords segmentId (db.manifest.segments.length + 1) db.segmentRecordsForSnapshot) := rfl
  unfold Db.sealedSegmentRecords at h ⊢
  rw [hsegments, hobjects, Except.foldlM_append, Except.bind_eq_ok_iff]
  refine ⟨records, Except.foldlM_congr_ok h fun out segment out' hsegment hstep => ?_, ?_⟩
  · have hne : compare segmentId segment.segmentId ≠ .eq := by
      rw [Ne, compare_eq_iff_eq]
      exact (hnew segment hsegment).symm
    rw [Std.ExtTreeMap.getElem?_insert, if_neg hne]
    exact hstep
  · have hfound : compare segmentId segmentId = .eq := compare_eq_iff_eq.2 rfl
    have htables : ∀ {values : List String} {value : String}, value ∉ sortedUnique values →
        value ∉ values := by
      intro values value hvalue hmem
      rw [sortedUnique, List.mem_eraseDups, List.mem_mergeSort] at hvalue
      exact hvalue hmem
    -- A table or tenant that the segment does not name has no records in it.
    have hnone : ∀ {p : SegmentRecord → String} {value : String},
        value ∉ sortedUnique (db.segmentRecordsForSnapshot.map p) →
        ∀ record ∈ db.segmentRecordsForSnapshot, p record ≠ value := by
      intro p value hvalue record hrecord heq
      exact htables hvalue (heq ▸ List.mem_map_of_mem hrecord)
    rw [List.foldlM_cons, Except.bind_eq_ok_iff]
    refine ⟨_, ?_, rfl⟩
    simp only [SegmentObject.manifest, SegmentObject.fromRecords, ne_eq,
      not_true_eq_false, if_false, Std.ExtTreeMap.getElem?_insert, hfound, if_true, hready,
      Except.ok_bind]
    split_ifs with htable htenant
    · rw [List.filter_eq_nil_iff.2, List.append_nil]
      intro record hrecord hboth
      exact hnone htable.2 record hrecord (of_decide_eq_true hboth).1
    · rw [List.filter_eq_nil_iff.2, List.append_nil]
      intro record hrecord hboth
      exact hnone htenant.2 record hrecord (of_decide_eq_true hboth).2
    · rfl

/-- The name of the copy with a number. -/
def copyName (k : ℕ) : String := String.ofList (List.replicate (k + 1) 'x')

theorem copyName_inj {k l : ℕ} (h : copyName k = copyName l) : k = l := by
  have hlist := congrArg (fun s : String => s.toList.length) h
  simpa [copyName] using hlist

/-- The handle after it has published what it holds a number of times. -/
def Db.withCopies (F : EngineFormat) (db : Db) : ℕ → Db
  | 0 => db
  | n + 1 => (HandleCall.publish (copyName n)).after F (db.withCopies F n)

/-- The handle holds what it held, and its segments hold copies of it. -/
structure HasCopies {S : Type} (index : IndexFiles S) (db : Db) (n : ℕ) (db' : Db) : Prop where
  store : db'.store = db.store
  schemas : db'.manifest.schemas = db.manifest.schemas
  latestEpoch : db'.manifest.latestEpoch = db.manifest.latestEpoch
  names : ∀ segment ∈ db'.manifest.segments, ∃ k < n, segment.segmentId = copyName k
  objects : ∀ k ≥ n, db'.disk.segments[copyName k]? = none
  records : ∀ table tenantId, db'.sealedSegmentRecords index table tenantId =
    .ok (List.replicate n (db.segmentRecordsForSnapshot.filter fun record =>
      decide (record.table = table ∧ record.tenantId = tenantId))).flatten

theorem hasCopies_withCopies {F : EngineFormat} [F.Lossless] {S : Type} {index : IndexFiles S}
    (hready : ∀ segmentId, index.validateReady segmentId = .ok ()) {dir : String} {db : Db}
    (hreach : Reachable F dir db) (hsegments : db.manifest.segments = [])
    (hobjects : ∀ k, db.disk.segments[copyName k]? = none) (n : ℕ) :
    Reachable F dir (db.withCopies F n) ∧ HasCopies index db n (db.withCopies F n) := by
  induction n with
  | zero =>
    refine ⟨hreach, rfl, rfl, rfl, ?_, fun k _ => hobjects k, fun table tenantId => ?_⟩
    · intro segment hsegment
      rw [Db.withCopies, hsegments] at hsegment
      cases hsegment
    · rw [Db.withCopies, Db.sealedSegmentRecords, hsegments]
      rfl
  | succ n ih =>
    obtain ⟨hreach', h⟩ := ih
    obtain ⟨entries, hsync⟩ := hreach'.synced
    have hnew : ∀ segment ∈ (db.withCopies F n).manifest.segments,
        segment.segmentId ≠ copyName n := by
      intro segment hsegment heq
      obtain ⟨k, hk, hname⟩ := h.names segment hsegment
      exact hk.ne (copyName_inj (hname.symm.trans heq))
    have hpublish : (db.withCopies F n).publishSegment F (copyName n) =
        .ok ((db.withCopies F n).withSegment F (copyName n)) := by
      refine hsync.publishSegment_new ?_ ?_ (h.objects n le_rfl)
      · have hlist : (copyName n).toList = 'x' :: List.replicate n 'x' := by
          rw [copyName, String.toList_ofList, List.replicate_succ]
        exact Text.isBlank_of_head hlist (by decide)
      · exact List.find?_eq_none.2 fun segment hsegment => by simpa using hnew segment hsegment
    have hafter : db.withCopies F (n + 1) = (db.withCopies F n).withSegment F (copyName n) := by
      rw [Db.withCopies, HandleCall.after, hpublish]
      rfl
    have hkept : (db.withCopies F n).segmentRecordsForSnapshot = db.segmentRecordsForSnapshot := by
      simp only [Db.segmentRecordsForSnapshot, h.store, h.schemas, h.latestEpoch]
    refine ⟨hreach'.keepsPast_call (.publish (copyName n)) |>.1, ?_⟩
    rw [hafter]
    refine ⟨h.store, h.schemas, h.latestEpoch, ?_, ?_, fun table tenantId => ?_⟩
    · intro segment hsegment
      rcases List.mem_append.1 hsegment with hold | hlast
      · obtain ⟨k, hk, hname⟩ := h.names segment hold
        exact ⟨k, hk.trans (Nat.lt_succ_self n), hname⟩
      · obtain rfl := List.mem_singleton.1 hlast
        exact ⟨n, Nat.lt_succ_self n, rfl⟩
    · intro k hk
      have hne : compare (copyName n) (copyName k) ≠ .eq := by
        rw [Ne, compare_eq_iff_eq]
        exact fun heq => absurd (copyName_inj heq) (by omega)
      show ((db.withCopies F n).disk.segments.insert (copyName n) _)[copyName k]? = none
      rw [Std.ExtTreeMap.getElem?_insert, if_neg hne]
      exact h.objects k (by omega)
    · rw [sealedSegmentRecords_withSegment hready hnew (h.records table tenantId), hkept,
        List.replicate_succ', List.flatten_append, List.flatten_singleton]

/-! ### Scores of copies -/

theorem length_occurrences_replicate (n : ℕ) {doc : PreparedTextDocument} {term : String}
    (h : term ∈ doc.tokens) : (occurrences (List.replicate n doc) term).length = n := by
  have hall : occurrences (List.replicate n doc) term = (List.replicate n doc).zipIdx.map
      fun entry => ⟨entry.2, entry.1.tokens.count term⟩ := by
    rw [occurrences, ← List.filterMap_eq_map']
    refine List.filterMap_congr fun entry hentry => ?_
    rw [List.eq_of_mem_replicate (List.fst_mem_of_mem_zipIdx hentry), if_pos h]
  rw [hall, List.length_map, List.length_zipIdx, List.length_replicate]

namespace F32

variable {S : Type}

/-- Documents without terms have no scores. -/
theorem fromDocuments_without_terms (ops : F32 S) {docs : List (String × String)}
    (h : ∀ doc ∈ docs, tokenize doc.2 = []) (text : String) :
    (ops.fromDocumentsWithInitialScore text docs).2 = [] := by
  have hnone : matchingDocs (tokenize text) (prepareDocuments docs) = [] := by
    refine List.filterMap_eq_nil_iff.2 fun entry hentry => ?_
    obtain ⟨doc, hdoc, hentry⟩ := List.mem_map.1 (List.fst_mem_of_mem_zipIdx hentry)
    rw [← hentry, h doc hdoc]
    rfl
  rw [fromDocumentsWithInitialScore]
  split_ifs
  · rfl
  · dsimp only
    rw [hnone]
    exact ite_self _

/-- Copies of one document with one word have the score of the word, if it is positive. -/
theorem exists_scored_replicate (ops : F32 S) {n : ℕ} (hn : 0 < n) (id : String) {word : String}
    (hword : tokenize word = [word])
    (hscore : ops.gt (ops.bm25FromTermFrequency [word] (termFrequency [word] [word]) 1 n
      (ops.div (ops.ofNat n) (ops.ofNat n)) ((∅ : TermCounts).insert word n))
      (ops.ofRat 0) = true) :
    ∃ score, (id, score) ∈
      (ops.fromDocumentsWithInitialScore word (List.replicate n (id, word))).2 := by
  have hdocs : prepareDocuments (List.replicate n (id, word)) = List.replicate n ⟨id, [word]⟩ := by
    rw [prepareDocuments, List.map_replicate, hword]
  have hlength : (occurrences (List.replicate n ⟨id, [word]⟩) word).length = n :=
    length_occurrences_replicate n (List.mem_singleton_self word)
  have hfrequency : ∀ term ∈ [word],
      (documentFrequency (matchingDocs [word] (List.replicate n ⟨id, [word]⟩)))[term]? =
        ((∅ : TermCounts).insert word n)[term]? := by
    intro term hterm
    have hoccurs : occurrences (List.replicate n ⟨id, [word]⟩) word ≠ [] := by
      rw [← List.length_pos_iff, hlength]
      exact hn
    obtain rfl := List.mem_singleton.1 hterm
    rw [getElem?_documentFrequency hterm hoccurs, hlength, Std.ExtTreeMap.getElem?_insert_self]
  have haverage : ops.averageLength (List.replicate n ⟨id, [word]⟩) =
      ops.div (ops.ofNat n) (ops.ofNat n) := by
    simp [averageLength]
  have hmatching : (⟨id, 1, 0, termFrequency [word] [word]⟩ : QueryScopedDoc) ∈
      matchingDocs [word] (List.replicate n ⟨id, [word]⟩) := by
    refine List.mem_filterMap.2 ⟨(⟨id, [word]⟩, 0), ?_, ?_⟩
    · rw [List.mk_mem_zipIdx_iff_getElem?, List.getElem?_replicate, if_pos hn]
    · have hterm := getElem?_termFrequency [word] [word] word
      refine if_neg fun hempty => ?_
      rw [Std.ExtTreeMap.isEmpty_iff.1 hempty] at hterm
      simp at hterm
  have hsome : (List.replicate n (id, word)).isEmpty = false := by
    simpa using hn.ne'
  rw [fromDocumentsWithInitialScore, hsome, if_neg Bool.false_ne_true, hdocs, hword]
  dsimp only
  rw [haverage, List.length_replicate]
  have hone : ops.scoreDocument [word] n (ops.div (ops.ofNat n) (ops.ofNat n))
      (documentFrequency (matchingDocs [word] (List.replicate n ⟨id, [word]⟩))) id 1
      (termFrequency [word] [word]) = some (id, ops.bm25FromTermFrequency [word]
        (termFrequency [word] [word]) 1 n (ops.div (ops.ofNat n) (ops.ofNat n))
        ((∅ : TermCounts).insert word n)) := by
    rw [scoreDocument, ops.bm25_congr hfrequency]
    exact if_pos hscore
  exact ⟨_, List.mem_filterMap.2 ⟨_, hmatching, hone⟩⟩

end F32

end TraceDB
