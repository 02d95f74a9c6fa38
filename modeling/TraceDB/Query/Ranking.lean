import TraceDB.Query.Text
import Mathlib.Data.List.Perm.Basic

/-!
# Candidate streams and their fusion

Every access path of a query gives a ranked list of candidates.  `fuseRrf` adds up the reciprocal
ranks of a record over the streams; `fuseQueryStreams` fuses the streams with evidence first, and
lists what only the other streams have after them.

* `nodup_fuseQueryStreams` : a record is listed once;
* `mem_fuseQueryStreams` : only records of the streams are listed;
* `scored_fuseQueryStreams` : the records of the streams of a path with evidence, and no others,
  have a score from it.
-/

namespace TraceDB

/-- `ScoreComponents`. -/
structure ScoreComponents (S : Type) where
  vector : Option S
  lexical : Option S
  relational : Option S
  freshnessPenalty : Option S
  finalScore : S
  deriving DecidableEq

/-- `Candidate`, as far as a query reads it. -/
structure Candidate (S : Type) where
  recordId : String
  versionId : ℕ
  scoreComponents : ScoreComponents S

/-- The access paths. -/
inductive PathId where
  | policy
  | relational
  | hotOverlay
  | lexical
  | vector
  | graph
  | temporal
  deriving DecidableEq

/-- `is_evidence_stream`. -/
def PathId.isEvidence : PathId → Bool
  | .lexical | .vector | .graph | .temporal => true
  | .policy | .relational | .hotOverlay => false

/-- `MemoryAccessPath`. -/
structure MemoryAccessPath (S : Type) where
  id : PathId
  candidates : List (Candidate S)

/-- `StreamCandidate`. -/
structure StreamCandidate (S : Type) where
  recordId : String
  score : S
  freshnessPenalty : S

/-- `RankedStream`. -/
structure RankedStream (S : Type) where
  name : PathId
  candidates : List (StreamCandidate S)

/-- `FusedCandidate`. -/
structure FusedCandidate (S : Type) where
  recordId : String
  vector : Option S
  lexical : Option S
  relational : Option S
  freshnessPenalty : S
  finalScore : S

/-- The score of a stream, in the place that the stream has in a fused candidate. -/
def FusedCandidate.withScore {S : Type} (fused : FusedCandidate S) (name : PathId) (score : S) :
    FusedCandidate S :=
  match name with
  | .lexical => { fused with lexical := some score }
  | .vector => { fused with vector := some score }
  | _ => { fused with relational := some score }

@[simp] theorem FusedCandidate.recordId_withScore {S : Type} (fused : FusedCandidate S)
    (name : PathId) (score : S) : (fused.withScore name score).recordId = fused.recordId := by
  cases name <;> rfl

/-- `slice::sort_by`: a stable sort. -/
def sortBy {α : Type} (order : α → α → Ordering) (xs : List α) : List α :=
  xs.mergeSort fun a b => (order a b).isLE

theorem sortBy_perm {α : Type} (order : α → α → Ordering) (xs : List α) :
    (sortBy order xs).Perm xs := List.mergeSort_perm _ _

theorem pairwise_sortBy {α : Type} {order : α → α → Ordering} [Std.TransCmp order] (xs : List α) :
    (sortBy order xs).Pairwise fun a b => (order a b).isLE = true := by
  refine List.pairwise_mergeSort (fun a b c => Std.TransCmp.isLE_trans) (fun a b => ?_) xs
  have hswap : order a b = (order b a).swap := Std.OrientedCmp.eq_swap
  rw [hswap]
  cases order b a <;> rfl

/-- A sort only asks how the elements of the list compare. -/
theorem sortBy_congr {α : Type} {order order' : α → α → Ordering} {xs : List α}
    (h : ∀ a ∈ xs, ∀ b ∈ xs, order a b = order' a b) : sortBy order xs = sortBy order' xs := by
  have hmap := @List.map_mergeSort _ _ (fun a b => (order a b).isLE)
    (fun a b => (order' a b).isLE) id xs
    fun a ha b hb => congrArg Ordering.isLE (h a ha b hb)
  rwa [List.map_id, List.map_id] at hmap

/-- An element is among the first of a sorted list where few elements can come before it. -/
theorem mem_take_sortBy {α : Type} {order : α → α → Ordering} [Std.TransCmp order]
    {xs before : List α} {x : α} {m : ℕ} (hnodup : xs.Nodup) (hx : x ∈ xs)
    (hbefore : ∀ y ∈ xs, y ≠ x → (order y x).isLE = true → y ∈ before) (hfew : before.length < m) :
    x ∈ (sortBy order xs).take m := by
  have hperm := sortBy_perm order xs
  obtain ⟨first, rest, hsplit⟩ := List.append_of_mem (hperm.mem_iff.2 hx)
  have hsorted : (sortBy order xs).Pairwise fun a b => (order a b).isLE = true := pairwise_sortBy xs
  have hdistinct := hperm.nodup_iff.2 hnodup
  rw [hsplit, List.pairwise_append] at hsorted
  rw [hsplit, List.nodup_append] at hdistinct
  have hsub : first ⊆ before := by
    intro y hy
    refine hbefore y (hperm.mem_iff.1 (hsplit ▸ List.mem_append_left _ hy)) ?_ ?_
    · exact hdistinct.2.2 y hy x List.mem_cons_self
    · exact hsorted.2.2 y hy x List.mem_cons_self
  have hlength := (List.subperm_of_subset hdistinct.1 hsub).length_le
  rw [hsplit, List.take_append, List.mem_append]
  refine .inr ?_
  obtain ⟨left, hleft⟩ : ∃ left, m - first.length = left + 1 := ⟨m - first.length - 1, by omega⟩
  rw [hleft, List.take_succ_cons]
  exact List.mem_cons_self

/-- A stable sort keeps the order of equals. -/
theorem filter_sortBy {α : Type} {order : α → α → Ordering}
    (htrans : ∀ a b c, (order a b).isLE → (order b c).isLE → (order a c).isLE)
    (htotal : ∀ a b, (order a b).isLE ∨ (order b a).isLE) {p : α → Bool} (xs : List α)
    (hequal : ∀ a ∈ xs, p a → ∀ b ∈ xs, p b → order a b = .eq) :
    (sortBy order xs).filter p = xs.filter p := by
  have hsorted : (xs.filter p).Pairwise fun a b => (order a b).isLE = true := by
    refine List.Pairwise.imp_of_mem (fun {a b} ha hb _ => ?_)
      (List.pairwise_of_forall fun _ _ => trivial)
    rw [hequal a (List.mem_filter.1 ha).1 (List.mem_filter.1 ha).2 b (List.mem_filter.1 hb).1
      (List.mem_filter.1 hb).2]
    rfl
  have hsub : (xs.filter p).Sublist (sortBy order xs) :=
    List.sublist_mergeSort htrans (fun a b => by simpa using htotal a b) hsorted List.filter_sublist
  have hfilter := hsub.filter p
  rw [List.filter_filter] at hfilter
  simp only [Bool.and_self] at hfilter
  exact (hfilter.eq_of_length ((sortBy_perm order xs).filter p).length_eq.symm).symm

namespace F32

variable {S : Type} (ops : F32 S)

/-- `score_order`. -/
def scoreOrder (left right : S) : Ordering := (ops.partialCmp right left).getD .eq

/-- `ranked_stream_from_candidates`. -/
def rankedStream (name : PathId) (candidates : List (Candidate S)) : RankedStream S :=
  ⟨name, candidates.map fun candidate =>
    ⟨candidate.recordId, candidate.scoreComponents.finalScore,
      candidate.scoreComponents.freshnessPenalty.getD (ops.ofRat 0)⟩⟩

/-- A candidate of one stream, added to what is fused so far. -/
def addCandidate (name : PathId) (fused : Std.ExtTreeMap String (FusedCandidate S) compare)
    (entry : StreamCandidate S × ℕ) : Std.ExtTreeMap String (FusedCandidate S) compare :=
  let candidate := entry.1
  let rank := ops.add (ops.ofNat entry.2) (ops.ofRat 1)
  let old := fused[candidate.recordId]?.getD
    ⟨candidate.recordId, none, none, none, ops.ofRat 0, ops.ofRat 0⟩
  let new := { old with
    finalScore := ops.add old.finalScore (ops.div (ops.ofRat 1) (ops.add (ops.ofRat 60) rank))
    freshnessPenalty := ops.max old.freshnessPenalty candidate.freshnessPenalty }
  fused.insert candidate.recordId (new.withScore name candidate.score)

/-- The order of `fuse_rrf`. -/
def fusedOrder (left right : FusedCandidate S) : Ordering :=
  (ops.scoreOrder left.finalScore right.finalScore).then (compare left.recordId right.recordId)

/-- What `fuse_rrf` collects under the record ids. -/
def fusedById (streams : List (RankedStream S)) :
    Std.ExtTreeMap String (FusedCandidate S) compare :=
  streams.foldl (fun fused stream =>
    stream.candidates.zipIdx.foldl (ops.addCandidate stream.name) fused) ∅

/-- `fuse_rrf`. -/
def fuseRrf (streams : List (RankedStream S)) : List (FusedCandidate S) :=
  sortBy ops.fusedOrder ((ops.fusedById streams).toList.map fun entry =>
    { entry.2 with finalScore := ops.sub entry.2.finalScore entry.2.freshnessPenalty })

/-- `fuse_query_streams`. -/
def fuseQueryStreams (streams : List (RankedStream S)) : List (FusedCandidate S) :=
  let evidence := streams.filter fun stream => stream.name.isEvidence && !stream.candidates.isEmpty
  if evidence.isEmpty then ops.fuseRrf streams
  else
    let fused := ops.fuseRrf evidence
    let fallback := streams.filter fun stream =>
      !stream.name.isEvidence && !stream.candidates.isEmpty
    fused ++ (ops.fuseRrf fallback).filter fun candidate =>
      candidate.recordId ∉ fused.map (·.recordId)

/-- The order of two optional scores: higher scores first, and any score before none. -/
def optionalOrder : Option S → Option S → Ordering
  | some left, some right => ops.scoreOrder left right
  | some _, none => .lt
  | none, some _ => .gt
  | none, none => .eq

/-- `lexical_first_order`. -/
def lexicalFirstOrder (left right : FusedCandidate S) : Ordering :=
  match left.lexical, right.lexical with
  | some leftLexical, some rightLexical =>
    (ops.scoreOrder leftLexical rightLexical).then
      ((ops.optionalOrder left.vector right.vector).then (ops.fusedOrder left right))
  | some _, none => .lt
  | none, some _ => .gt
  | none, none => ops.fusedOrder left right

/-- `vector_first_order`. -/
def vectorFirstOrder (left right : FusedCandidate S) : Ordering :=
  match left.vector, right.vector with
  | some leftVector, some rightVector =>
    (ops.scoreOrder leftVector rightVector).then (ops.fusedOrder left right)
  | some _, none => .lt
  | none, some _ => .gt
  | none, none => ops.fusedOrder left right

/-- `lexical_scores_are_tied`. -/
def lexicalScoresAreTied (candidates : List (FusedCandidate S)) : Bool :=
  match (candidates.filterMap (·.lexical)).filter ops.isFinite with
  | [] => true
  | first :: rest =>
    let bounds := rest.foldl (fun bounds score =>
      (ops.min bounds.1 score, ops.max bounds.2 score)) (first, first)
    ops.le (ops.abs (ops.sub bounds.2 bounds.1)) (ops.ofRat (1 / 1000000))

/-- The ranking of a query, with its final order. -/
def rank (hasText hasVector : Bool) (streams : List (RankedStream S)) : List (FusedCandidate S) :=
  let fused := ops.fuseQueryStreams streams
  if hasText && !ops.lexicalScoresAreTied fused then sortBy ops.lexicalFirstOrder fused
  else if hasVector then sortBy ops.vectorFirstOrder fused
  else fused

/-! ### What is listed -/

/-- The record ids of streams. -/
def streamIds (streams : List (RankedStream S)) : List String :=
  streams.flatMap fun stream => stream.candidates.map (·.recordId)

/-- Every fused candidate stands under its own id, and the ids are those of the streams. -/
def FusedOf (fused : Std.ExtTreeMap String (FusedCandidate S) compare) (ids : List String) : Prop :=
  ∀ id, (id ∈ ids ↔ (fused[id]?).isSome = true) ∧
    ∀ candidate, fused[id]? = some candidate → candidate.recordId = id

theorem FusedOf.addCandidate {fused : Std.ExtTreeMap String (FusedCandidate S) compare}
    {ids : List String} (h : FusedOf fused ids) (name : PathId) (entry : StreamCandidate S × ℕ) :
    FusedOf (ops.addCandidate name fused entry) (ids ++ [entry.1.recordId]) := by
  have hold : (fused[entry.1.recordId]?.getD
      ⟨entry.1.recordId, none, none, none, ops.ofRat 0, ops.ofRat 0⟩).recordId =
        entry.1.recordId := by
    cases hget : fused[entry.1.recordId]? with
    | none => rfl
    | some candidate => exact (h entry.1.recordId).2 candidate hget
  intro id
  rw [F32.addCandidate, Std.ExtTreeMap.getElem?_insert]
  by_cases hid : entry.1.recordId = id
  · subst hid
    rw [if_pos (compare_eq_iff_eq.2 rfl)]
    refine ⟨by simp, fun candidate hsome => ?_⟩
    obtain rfl := Option.some.inj hsome
    rw [FusedCandidate.recordId_withScore]
    exact hold
  · rw [if_neg (by simpa using hid)]
    refine ⟨?_, (h id).2⟩
    rw [← (h id).1, List.mem_append, List.mem_singleton]
    exact or_iff_left fun heq => hid heq.symm

theorem fusedOf_fusedById (streams : List (RankedStream S)) :
    FusedOf (ops.fusedById streams) (streamIds streams) := by
  have hstream : ∀ (name : PathId) (entries : List (StreamCandidate S × ℕ))
      {fused : Std.ExtTreeMap String (FusedCandidate S) compare} {ids : List String},
      FusedOf fused ids → FusedOf (entries.foldl (ops.addCandidate name) fused)
        (ids ++ entries.map (·.1.recordId)) := by
    intro name entries
    induction entries with
    | nil => intro fused ids h; rwa [List.map_nil, List.append_nil]
    | cons entry entries ih =>
      intro fused ids h
      have hrest := ih (h.addCandidate ops name entry)
      rwa [List.append_assoc, List.singleton_append] at hrest
  have hall : ∀ (streams : List (RankedStream S))
      {fused : Std.ExtTreeMap String (FusedCandidate S) compare} {ids : List String},
      FusedOf fused ids → FusedOf (streams.foldl (fun fused stream =>
        stream.candidates.zipIdx.foldl (ops.addCandidate stream.name) fused) fused)
        (ids ++ streamIds streams) := by
    intro streams
    induction streams with
    | nil => intro fused ids h; simpa [streamIds] using h
    | cons stream streams ih =>
      intro fused ids h
      have hrest := ih (hstream stream.name stream.candidates.zipIdx h)
      have hids : stream.candidates.zipIdx.map (·.1.recordId) =
          stream.candidates.map (·.recordId) := by
        have hmap := congrArg (List.map fun c : StreamCandidate S => c.recordId)
          (List.zipIdx_map_fst 0 stream.candidates)
        rwa [List.map_map] at hmap
      rw [hids, List.append_assoc] at hrest
      exact hrest
  have hempty : FusedOf (∅ : Std.ExtTreeMap String (FusedCandidate S) compare) [] :=
    fun id => by simp
  exact hall streams hempty

/-- The ids of `fuse_rrf`, up to their order. -/
theorem ids_fuseRrf_perm (streams : List (RankedStream S)) :
    ((ops.fuseRrf streams).map (·.recordId)).Perm
      ((ops.fusedById streams).toList.map Prod.fst) := by
  refine ((sortBy_perm _ _).map _).trans (List.Perm.of_eq ?_)
  rw [List.map_map]
  refine List.map_congr_left fun entry hentry => ?_
  exact ((ops.fusedOf_fusedById streams) entry.1).2 entry.2
    (Std.ExtTreeMap.mem_toList_iff_getElem?_eq_some.1 hentry)

theorem nodup_fuseRrf (streams : List (RankedStream S)) :
    ((ops.fuseRrf streams).map (·.recordId)).Nodup := by
  refine (ops.ids_fuseRrf_perm streams).nodup_iff.2 ?_
  exact List.pairwise_map.2 (Std.ExtTreeMap.distinct_keys_toList.imp
    fun hne heq => hne (compare_eq_iff_eq.2 heq))

theorem mem_fuseRrf (streams : List (RankedStream S)) (id : String) :
    id ∈ (ops.fuseRrf streams).map (·.recordId) ↔ id ∈ streamIds streams := by
  rw [(ops.ids_fuseRrf_perm streams).mem_iff, ((ops.fusedOf_fusedById streams) id).1]
  simp

/-- **A record is listed once.** -/
theorem nodup_fuseQueryStreams (streams : List (RankedStream S)) :
    ((ops.fuseQueryStreams streams).map (·.recordId)).Nodup := by
  unfold fuseQueryStreams
  dsimp only
  split_ifs
  · exact ops.nodup_fuseRrf streams
  · rw [List.map_append, List.nodup_append]
    refine ⟨ops.nodup_fuseRrf _, (ops.nodup_fuseRrf _).sublist (List.filter_sublist.map _), ?_⟩
    intro id hid id' hid' heq
    subst heq
    obtain ⟨candidate, hcandidate, rfl⟩ := List.mem_map.1 hid'
    exact of_decide_eq_true (List.mem_filter.1 hcandidate).2 hid

/-- **Only records of the streams are listed.** -/
theorem mem_fuseQueryStreams {streams : List (RankedStream S)} {candidate : FusedCandidate S}
    (h : candidate ∈ ops.fuseQueryStreams streams) : candidate.recordId ∈ streamIds streams := by
  have hsub : ∀ {p : RankedStream S → Bool}, candidate.recordId ∈ streamIds (streams.filter p) →
      candidate.recordId ∈ streamIds streams := by
    intro p hid
    obtain ⟨stream, hstream, hmem⟩ := List.mem_flatMap.1 hid
    exact List.mem_flatMap.2 ⟨stream, List.mem_of_mem_filter hstream, hmem⟩
  unfold fuseQueryStreams at h
  dsimp only at h
  split_ifs at h
  · exact (ops.mem_fuseRrf _ _).1 (List.mem_map_of_mem h)
  · rcases List.mem_append.1 h with h | h
    · exact hsub ((ops.mem_fuseRrf _ _).1 (List.mem_map_of_mem h))
    · exact hsub ((ops.mem_fuseRrf _ _).1 (List.mem_map_of_mem (List.mem_of_mem_filter h)))

/-! ### Scores of a path -/

/-- The record ids of the streams of a path. -/
def pathIds (path : PathId) (streams : List (RankedStream S)) : List String :=
  streamIds (streams.filter fun stream => decide (stream.name = path))

/-- The record ids of the lexical streams. -/
def lexicalIds (streams : List (RankedStream S)) : List String :=
  streamIds (streams.filter fun stream => decide (stream.name = .lexical))

/-- A field of fused candidates that the streams of one path fill in. -/
structure ScoreOf (get : FusedCandidate S → Option S) (path : PathId) : Prop where
  evidence : path.isEvidence = true
  absent : ∀ id zero zero', get ⟨id, none, none, none, zero, zero'⟩ = none
  withScore : ∀ fused name score,
    get (fused.withScore name score) = if name = path then some score else get fused
  other : ∀ fused finalScore freshnessPenalty,
    get { fused with finalScore := finalScore, freshnessPenalty := freshnessPenalty } = get fused

theorem scoreOf_lexical : ScoreOf (S := S) (·.lexical) .lexical where
  evidence := rfl
  absent _ _ _ := rfl
  withScore _ name _ := by cases name <;> rfl
  other _ _ _ := rfl

theorem scoreOf_vector : ScoreOf (S := S) (·.vector) .vector where
  evidence := rfl
  absent _ _ _ := rfl
  withScore _ name _ := by cases name <;> rfl
  other _ _ _ := rfl

/-- The fused candidates with a score in a field are those with the given ids. -/
def ScoredOf (get : FusedCandidate S → Option S)
    (fused : Std.ExtTreeMap String (FusedCandidate S) compare) (ids : List String) : Prop :=
  ∀ id, (fused[id]?.bind get).isSome = true ↔ id ∈ ids

variable {get : FusedCandidate S → Option S} {path : PathId}

theorem ScoredOf.addCandidate {fused : Std.ExtTreeMap String (FusedCandidate S) compare}
    {ids : List String} (hget : ScoreOf get path) (h : ScoredOf get fused ids) (name : PathId)
    (entry : StreamCandidate S × ℕ) :
    ScoredOf get (ops.addCandidate name fused entry)
      (if name = path then ids ++ [entry.1.recordId] else ids) := by
  have hold : get (fused[entry.1.recordId]?.getD
      ⟨entry.1.recordId, none, none, none, ops.ofRat 0, ops.ofRat 0⟩) =
        fused[entry.1.recordId]?.bind get := by
    cases fused[entry.1.recordId]? with
    | none => exact hget.absent _ _ _
    | some candidate => rfl
  intro id
  rw [F32.addCandidate, Std.ExtTreeMap.getElem?_insert]
  by_cases hid : entry.1.recordId = id
  · subst hid
    rw [if_pos (compare_eq_iff_eq.2 rfl), Option.bind_some, hget.withScore]
    by_cases hname : name = path
    · simp [hname]
    · rw [if_neg hname, if_neg hname, ← h entry.1.recordId, ← hold, hget.other]
  · rw [if_neg (by simpa using hid), h id]
    split_ifs
    · rw [List.mem_append, List.mem_singleton]
      exact (or_iff_left fun heq => hid heq.symm).symm
    · rfl

theorem scoredOf_fusedById (hget : ScoreOf get path) (streams : List (RankedStream S)) :
    ScoredOf get (ops.fusedById streams) (pathIds path streams) := by
  have hstream : ∀ (name : PathId) (entries : List (StreamCandidate S × ℕ))
      {fused : Std.ExtTreeMap String (FusedCandidate S) compare} {ids : List String},
      ScoredOf get fused ids → ScoredOf get (entries.foldl (ops.addCandidate name) fused)
        (if name = path then ids ++ entries.map (·.1.recordId) else ids) := by
    intro name entries
    induction entries with
    | nil => intro fused ids h; simpa using h
    | cons entry entries ih =>
      intro fused ids h
      have hrest := ih (h.addCandidate ops hget name entry)
      by_cases hname : name = path
      · simpa [hname, List.append_assoc] using hrest
      · simpa [hname] using hrest
  have hall : ∀ (streams : List (RankedStream S))
      {fused : Std.ExtTreeMap String (FusedCandidate S) compare} {ids : List String},
      ScoredOf get fused ids → ScoredOf get (streams.foldl (fun fused stream =>
        stream.candidates.zipIdx.foldl (ops.addCandidate stream.name) fused) fused)
        (ids ++ pathIds path streams) := by
    intro streams
    induction streams with
    | nil => intro fused ids h; simpa [pathIds, streamIds] using h
    | cons stream streams ih =>
      intro fused ids h
      have hrest := ih (hstream stream.name stream.candidates.zipIdx h)
      have hids : stream.candidates.zipIdx.map (·.1.recordId) =
          stream.candidates.map (·.recordId) := by
        have hmap := congrArg (List.map fun c : StreamCandidate S => c.recordId)
          (List.zipIdx_map_fst 0 stream.candidates)
        rwa [List.map_map] at hmap
      rw [hids] at hrest
      by_cases hname : stream.name = path
      · simpa [hname, pathIds, streamIds, List.append_assoc] using hrest
      · simpa [hname, pathIds] using hrest
  have hempty : ScoredOf get (∅ : Std.ExtTreeMap String (FusedCandidate S) compare) [] :=
    fun id => by simp
  exact hall streams hempty

theorem scored_fuseRrf (hget : ScoreOf get path) {streams : List (RankedStream S)}
    {candidate : FusedCandidate S} (h : candidate ∈ ops.fuseRrf streams) :
    (get candidate).isSome = true ↔ candidate.recordId ∈ pathIds path streams := by
  obtain ⟨entry, hentry, rfl⟩ := List.mem_map.1 ((sortBy_perm _ _).mem_iff.1 h)
  have hstored := Std.ExtTreeMap.mem_toList_iff_getElem?_eq_some.1 hentry
  have hid := (ops.fusedOf_fusedById streams entry.1).2 entry.2 hstored
  have hscored := ops.scoredOf_fusedById hget streams entry.1
  rw [hstored, Option.bind_some] at hscored
  rw [hget.other entry.2 _ entry.2.freshnessPenalty]
  show (get entry.2).isSome = true ↔ entry.2.recordId ∈ pathIds path streams
  rw [hid]
  exact hscored

/-- The streams with evidence have all streams of their paths that have candidates. -/
theorem mem_pathIds_evidence (hpath : path.isEvidence = true) (streams : List (RankedStream S))
    (id : String) :
    id ∈ pathIds path (streams.filter fun stream =>
        stream.name.isEvidence && !stream.candidates.isEmpty) ↔ id ∈ pathIds path streams := by
  simp only [pathIds, streamIds, List.mem_flatMap, List.mem_filter, decide_eq_true_eq]
  constructor
  · rintro ⟨stream, ⟨⟨hstream, -⟩, hname⟩, hid⟩
    exact ⟨stream, ⟨hstream, hname⟩, hid⟩
  · rintro ⟨stream, ⟨hstream, hname⟩, hid⟩
    refine ⟨stream, ⟨⟨hstream, ?_⟩, hname⟩, hid⟩
    obtain ⟨candidate, hcandidate, -⟩ := List.mem_map.1 hid
    rw [hname, hpath, Bool.true_and, Bool.not_eq_true', List.isEmpty_eq_false_iff_exists_mem]
    exact ⟨candidate, hcandidate⟩

/-- **The records of the streams of a path with evidence, and no others, have a score from it.** -/
theorem scored_fuseQueryStreams (hget : ScoreOf get path) {streams : List (RankedStream S)}
    {candidate : FusedCandidate S} (h : candidate ∈ ops.fuseQueryStreams streams) :
    (get candidate).isSome = true ↔ candidate.recordId ∈ pathIds path streams := by
  unfold fuseQueryStreams at h
  dsimp only at h
  split_ifs at h
  · exact ops.scored_fuseRrf hget h
  · rcases List.mem_append.1 h with h | h
    · rw [ops.scored_fuseRrf hget h, mem_pathIds_evidence hget.evidence]
    · -- The other streams have no score from the path, and their records are in none of
      -- its streams.
      obtain ⟨hfallback, hnew⟩ := List.mem_filter.1 h
      rw [ops.scored_fuseRrf hget hfallback]
      refine iff_of_false (fun hid => ?_) fun hid => of_decide_eq_true hnew ?_
      · simp only [pathIds, streamIds, List.mem_flatMap, List.mem_filter, decide_eq_true_eq] at hid
        obtain ⟨stream, ⟨⟨-, hplain⟩, hname⟩, -⟩ := hid
        rw [hname, hget.evidence] at hplain
        cases hplain
      · rw [ops.mem_fuseRrf]
        have hid := (mem_pathIds_evidence hget.evidence streams candidate.recordId).2 hid
        obtain ⟨stream, hstream, hmem⟩ := List.mem_flatMap.1 hid
        exact List.mem_flatMap.2 ⟨stream, List.mem_of_mem_filter hstream, hmem⟩

/-- **The records of the lexical streams, and no others, have a lexical score.** -/
theorem lexical_fuseQueryStreams {streams : List (RankedStream S)} {candidate : FusedCandidate S}
    (h : candidate ∈ ops.fuseQueryStreams streams) :
    candidate.lexical.isSome = true ↔ candidate.recordId ∈ lexicalIds streams :=
  ops.scored_fuseQueryStreams scoreOf_lexical h

/-- Every record of the lexical streams is listed. -/
theorem exists_mem_of_lexicalIds {streams : List (RankedStream S)} {id : String}
    (h : id ∈ lexicalIds streams) : ∃ candidate ∈ ops.fuseQueryStreams streams,
      candidate.recordId = id := by
  have hevidence := (@mem_pathIds_evidence _ .lexical rfl streams id).2 h
  obtain ⟨stream, hstream, hmem⟩ := List.mem_flatMap.1 hevidence
  have hids : id ∈ streamIds (streams.filter fun stream =>
      stream.name.isEvidence && !stream.candidates.isEmpty) :=
    List.mem_flatMap.2 ⟨stream, List.mem_of_mem_filter hstream, hmem⟩
  obtain ⟨candidate, hcandidate, hid⟩ := List.mem_map.1 ((ops.mem_fuseRrf _ id).2 hids)
  refine ⟨candidate, ?_, hid⟩
  unfold fuseQueryStreams
  dsimp only
  split_ifs with hnone
  · -- There is evidence.
    rw [List.isEmpty_iff.1 hnone] at hids
    cases hids
  · exact List.mem_append_left _ hcandidate

/-- The final order of a ranking moves its candidates only. -/
theorem rank_perm (hasText hasVector : Bool) (streams : List (RankedStream S)) :
    (ops.rank hasText hasVector streams).Perm (ops.fuseQueryStreams streams) := by
  unfold rank
  dsimp only
  split_ifs
  · exact sortBy_perm _ _
  · exact sortBy_perm _ _
  · exact .refl _

end F32

end TraceDB
