import Mathlib.Algebra.Order.Group.Unbundled.Abs
import Mathlib.Data.List.Pairwise
import TraceDB.Query.Samples

/-!
# Evidence before fallback

`fuse_query_streams` lists what has evidence, and after it what only the other streams have.  A
query then sorts that list again: by lexical scores when they tell its records apart, or else by
vector scores.

* `fused_eq_foldl` : a record is fused from its own candidates, in the order of the streams.
* `rrfScore`, `textScore` : the final score and the lexical score of a record, from its candidates.
* `evidence_outranks_fallback_iff` : the sort keeps the evidence first exactly when every record
  with evidence but without a score of the leading path outscores all records without evidence.
* `outranked_evidence` : a graph hit that is listed after a record without evidence.
-/

namespace TraceDB

variable {S : Type}

/-- The candidates of streams, each with the name of its stream and its place there. -/
def streamEntries (streams : List (RankedStream S)) : List (PathId × StreamCandidate S × ℕ) :=
  streams.flatMap fun stream => stream.candidates.zipIdx.map fun entry => (stream.name, entry)

/-- The candidates of a record. -/
def ownEntries (streams : List (RankedStream S)) (id : String) :
    List (PathId × StreamCandidate S × ℕ) :=
  (streamEntries streams).filter fun entry => entry.2.1.recordId = id

/-- The score of a record in the last of its candidates in lexical streams. -/
def textScore (streams : List (RankedStream S)) (id : String) : Option S :=
  ((ownEntries streams id).findLast? fun entry => entry.1 = .lexical).map
    fun entry => entry.2.1.score

/-- The reciprocal ranks of a record, added up, less its highest freshness penalty. -/
def rrfScore (streams : List (RankedStream ℚ)) (id : String) : ℚ :=
  ((ownEntries streams id).map fun entry => 1 / (60 + ((entry.2.2 : ℚ) + 1))).sum -
    ((ownEntries streams id).map fun entry => entry.2.1.freshnessPenalty).foldl max 0

/-- The streams with evidence. -/
def evidenceStreams (streams : List (RankedStream S)) : List (RankedStream S) :=
  streams.filter fun stream => stream.name.isEvidence

/-- The other streams. -/
def fallbackStreams (streams : List (RankedStream S)) : List (RankedStream S) :=
  streams.filter fun stream => !stream.name.isEvidence

/-! ### What a record is fused from -/

namespace F32

section

variable (ops : F32 S)

/-- A record before its first candidate. -/
def blank (id : String) : FusedCandidate S := ⟨id, none, none, none, ops.ofRat 0, ops.ofRat 0⟩

/-- A record with one more candidate. -/
def absorb (old : FusedCandidate S) (entry : PathId × StreamCandidate S × ℕ) : FusedCandidate S :=
  { old with
    finalScore := ops.add old.finalScore
      (ops.div (ops.ofRat 1) (ops.add (ops.ofRat 60) (ops.add (ops.ofNat entry.2.2) (ops.ofRat 1))))
    freshnessPenalty := ops.max old.freshnessPenalty entry.2.1.freshnessPenalty }.withScore
      entry.1 entry.2.1.score

theorem fusedById_eq (streams : List (RankedStream S)) :
    ops.fusedById streams =
      (streamEntries streams).foldl
        (fun fused entry => ops.addCandidate entry.1 fused entry.2) ∅ := by
  rw [fusedById, streamEntries, List.foldl_flatMap]
  refine List.foldl_ext _ _ _ fun fused stream _ => ?_
  rw [List.foldl_map]

/-- A candidate changes its own record. -/
theorem getD_addCandidate (fused : Std.ExtTreeMap String (FusedCandidate S) compare)
    (entry : PathId × StreamCandidate S × ℕ) (id : String) :
    (ops.addCandidate entry.1 fused entry.2)[id]?.getD (ops.blank id) =
      if entry.2.1.recordId = id then ops.absorb (fused[id]?.getD (ops.blank id)) entry
      else fused[id]?.getD (ops.blank id) := by
  rw [addCandidate, Std.ExtTreeMap.getElem?_insert]
  split_ifs with hcompare hid hid
  · obtain rfl := hid
    rfl
  · exact absurd (compare_eq_iff_eq.1 hcompare) hid
  · exact absurd (compare_eq_iff_eq.2 hid) hcompare
  · rfl

/-- **A record is fused from its own candidates, one after the other.** -/
theorem fused_eq_foldl (streams : List (RankedStream S)) (id : String) :
    (ops.fusedById streams)[id]?.getD (ops.blank id) =
      (ownEntries streams id).foldl ops.absorb (ops.blank id) := by
  rw [fusedById_eq, ownEntries]
  generalize streamEntries streams = entries
  induction entries using List.reverseRecOn with
  | nil => simp
  | append_singleton entries entry ih =>
    rw [List.foldl_append, List.foldl_cons, List.foldl_nil, getD_addCandidate, ih,
      List.filter_append, List.foldl_append]
    split_ifs with hid
    · simp [hid]
    · simp [hid]

theorem lexical_foldl_absorb (entries : List (PathId × StreamCandidate S × ℕ)) (id : String) :
    (entries.foldl ops.absorb (ops.blank id)).lexical =
      (entries.findLast? fun entry => entry.1 = .lexical).map fun entry => entry.2.1.score := by
  induction entries using List.reverseRecOn with
  | nil => rfl
  | append_singleton entries entry ih =>
    rw [List.foldl_append, List.foldl_cons, List.foldl_nil, List.findLast?_append_singleton, absorb]
    obtain ⟨name, candidate, place⟩ := entry
    cases name with
    | lexical => rfl
    | _ => exact ih

/-- What `fuse_rrf` lists for a record, with the penalty taken off. -/
theorem eq_of_mem_fuseRrf {streams : List (RankedStream S)} {candidate : FusedCandidate S}
    (h : candidate ∈ ops.fuseRrf streams) :
    let fused := (ownEntries streams candidate.recordId).foldl ops.absorb
      (ops.blank candidate.recordId)
    candidate = { fused with finalScore := ops.sub fused.finalScore fused.freshnessPenalty } := by
  obtain ⟨entry, hentry, rfl⟩ := List.mem_map.1 ((sortBy_perm _ _).mem_iff.1 h)
  have hstored := Std.ExtTreeMap.mem_toList_iff_getElem?_eq_some.1 hentry
  have hid := (ops.fusedOf_fusedById streams entry.1).2 entry.2 hstored
  have hfold := ops.fused_eq_foldl streams entry.1
  rw [hstored, Option.getD_some] at hfold
  dsimp only
  rw [hid, ← hfold, hid]

end

/-! ### Scores as rational numbers -/

theorem finalScore_foldl_absorb (entries : List (PathId × StreamCandidate ℚ × ℕ)) (id : String) :
    (entries.foldl rational.absorb (rational.blank id)).finalScore =
      (entries.map fun entry => 1 / (60 + ((entry.2.2 : ℚ) + 1))).sum := by
  induction entries using List.reverseRecOn with
  | nil => rfl
  | append_singleton entries entry ih =>
    rw [List.foldl_append, List.foldl_cons, List.foldl_nil, List.map_append, List.sum_append, ← ih]
    obtain ⟨name, candidate, place⟩ := entry
    have hplain : (rational.absorb (entries.foldl rational.absorb (rational.blank id))
        (name, candidate, place)).finalScore =
          (entries.foldl rational.absorb (rational.blank id)).finalScore +
            1 / (60 + ((place : ℚ) + 1)) := by
      cases name <;> rfl
    simpa using hplain

theorem max_rational (x y : ℚ) : rational.max x y = Max.max x y := by
  change (if Rat.blt x y = true then y else x) = Max.max x y
  have hblt : Rat.blt x y = true ↔ x < y := Iff.rfl
  by_cases hlt : x < y
  · rw [if_pos (hblt.2 hlt), max_eq_right hlt.le]
  · rw [if_neg fun h => hlt (hblt.1 h), max_eq_left (not_lt.1 hlt)]

theorem min_rational (x y : ℚ) : rational.min x y = Min.min x y := by
  change (if Rat.blt y x = true then y else x) = Min.min x y
  have hblt : Rat.blt y x = true ↔ y < x := Iff.rfl
  by_cases hlt : y < x
  · rw [if_pos (hblt.2 hlt), min_eq_right hlt.le]
  · rw [if_neg fun h => hlt (hblt.1 h), min_eq_left (not_lt.1 hlt)]

theorem freshnessPenalty_foldl_absorb (entries : List (PathId × StreamCandidate ℚ × ℕ))
    (id : String) :
    (entries.foldl rational.absorb (rational.blank id)).freshnessPenalty =
      (entries.map fun entry => entry.2.1.freshnessPenalty).foldl Max.max 0 := by
  induction entries using List.reverseRecOn with
  | nil => rfl
  | append_singleton entries entry ih =>
    rw [List.foldl_append, List.foldl_cons, List.foldl_nil, List.map_append,
      List.foldl_append, ← ih, List.map_singleton, List.foldl_cons, List.foldl_nil, ← max_rational]
    obtain ⟨name, candidate, place⟩ := entry
    cases name <;> rfl

/-- **The final score of a record** in a fusion of streams. -/
theorem finalScore_fuseRrf {streams : List (RankedStream ℚ)} {candidate : FusedCandidate ℚ}
    (h : candidate ∈ rational.fuseRrf streams) :
    candidate.finalScore = rrfScore streams candidate.recordId := by
  have hcandidate := congrArg FusedCandidate.finalScore (rational.eq_of_mem_fuseRrf h)
  rw [hcandidate, rrfScore, ← finalScore_foldl_absorb _ candidate.recordId,
    ← freshnessPenalty_foldl_absorb _ candidate.recordId]
  rfl

theorem lexical_fuseRrf {ops : F32 S} {streams : List (RankedStream S)}
    {candidate : FusedCandidate S} (h : candidate ∈ ops.fuseRrf streams) :
      candidate.lexical = textScore streams candidate.recordId := by
  have hcandidate := congrArg FusedCandidate.lexical (ops.eq_of_mem_fuseRrf h)
  rw [hcandidate]
  exact ops.lexical_foldl_absorb _ _

/-! ### The orders -/

theorem compare_scoreOrder (x y : ℚ) : rational.scoreOrder x y = compare y x := by
  change (if Rat.blt y x = true then Ordering.lt else if Rat.blt x y = true then .gt else .eq) =
    compare y x
  have hblt : ∀ a b : ℚ, Rat.blt a b = true ↔ a < b := fun a b => Iff.rfl
  rcases lt_trichotomy y x with hlt | rfl | hgt
  · rw [if_pos ((hblt y x).2 hlt), compare_lt_iff_lt.2 hlt]
  · rw [if_neg fun h => lt_irrefl y ((hblt y y).1 h), if_neg fun h => lt_irrefl y ((hblt y y).1 h),
      compare_eq_iff_eq.2 rfl]
  · rw [if_neg fun h => hgt.asymm ((hblt y x).1 h), if_pos ((hblt x y).2 hgt),
      compare_gt_iff_gt.2 hgt]

theorem rational_partialCmp (x y : ℚ) : rational.partialCmp x y = some (compare x y) := by
  rw [← compare_scoreOrder]
  rfl

theorem le_rational (x y : ℚ) : rational.le x y = true ↔ x ≤ y := by
  have horder : rational.partialCmp x y = some (rational.scoreOrder y x) := rfl
  rw [le, horder, compare_scoreOrder, ← compare_le_iff_le]
  cases compare x y <;> decide

theorem compare_optionalOrder (x y : Option ℚ) : rational.optionalOrder x y = compare y x := by
  cases x with
  | none => cases y <;> rfl
  | some x =>
    cases y with
    | none => rfl
    | some y => exact compare_scoreOrder x y

theorem fusedOrder_eq : rational.fusedOrder =
    compareLex (fun a b => compareOn FusedCandidate.finalScore b a)
    (compareOn FusedCandidate.recordId) := by
  funext a b
  rw [fusedOrder, compare_scoreOrder]
  rfl

/-- The vector scores count only between records with lexical scores. -/
theorem lexicalFirstOrder_eq : rational.lexicalFirstOrder =
    compareLex (fun a b => compareOn FusedCandidate.lexical b a)
      (compareLex (fun a b => compareOn
        (fun c : FusedCandidate ℚ => c.lexical.bind fun _ => c.vector) b a)
          rational.fusedOrder) := by
  funext a b
  unfold lexicalFirstOrder
  simp only [compareLex, compareOn, ← compare_optionalOrder]
  cases a.lexical with
  | none => cases b.lexical <;> rfl
  | some x => cases b.lexical <;> rfl

theorem vectorFirstOrder_eq : rational.vectorFirstOrder =
    compareLex (fun a b => compareOn FusedCandidate.vector b a) rational.fusedOrder := by
  funext a b
  unfold vectorFirstOrder
  simp only [compareLex, compareOn, ← compare_optionalOrder]
  cases a.vector with
  | none => cases b.vector <;> rfl
  | some x => cases b.vector <;> rfl

instance : Std.TransCmp rational.fusedOrder := by
  rw [fusedOrder_eq]
  infer_instance

instance : Std.TransCmp rational.lexicalFirstOrder := by
  rw [lexicalFirstOrder_eq]
  infer_instance

instance : Std.TransCmp rational.vectorFirstOrder := by
  rw [vectorFirstOrder_eq]
  infer_instance

end F32

/-- Of two elements of a list one stands before the other. -/
theorem rel_or_rel_of_pairwise {α : Type} {r : α → α → Prop} {xs : List α} (h : xs.Pairwise r)
    {a b : α} (ha : a ∈ xs) (hb : b ∈ xs) (hne : a ≠ b) : r a b ∨ r b a := by
  have hsymm : Std.Symm fun x y => r x y ∨ r y x := ⟨fun _ _ => Or.symm⟩
  have hboth : xs.Pairwise fun x y => r x y ∨ r y x := h.imp Or.inl
  exact hboth.forall ha hb hne

/-! ### Streams with evidence and others -/

theorem streamEntries_filter_nonempty (p : RankedStream S → Bool)
    (streams : List (RankedStream S)) :
    streamEntries (streams.filter fun stream => p stream && !stream.candidates.isEmpty) =
      streamEntries (streams.filter p) := by
  induction streams with
  | nil => rfl
  | cons stream streams ih =>
    rw [List.filter_cons, List.filter_cons]
    cases hp : p stream with
    | false => exact ih
    | true =>
      cases hcandidates : stream.candidates with
      | nil =>
        have hnone : streamEntries (stream :: streams.filter p) =
            streamEntries (streams.filter p) := by
          rw [streamEntries, List.flatMap_cons, hcandidates]
          rfl
        exact ih.trans hnone.symm
      | cons candidate candidates => exact congrArg (_ ++ ·) ih

theorem filter_streamEntries (path : PathId) (streams : List (RankedStream S)) :
    (streamEntries streams).filter (fun entry => entry.1 = path) =
      streamEntries (streams.filter fun stream => stream.name = path) := by
  induction streams with
  | nil => rfl
  | cons stream streams ih =>
    have hsplit : streamEntries (stream :: streams) =
        (stream.candidates.zipIdx.map fun entry => (stream.name, entry)) ++ streamEntries streams :=
          rfl
    rw [hsplit, List.filter_append, ih, List.filter_cons]
    by_cases hname : stream.name = path
    · have hall : (stream.candidates.zipIdx.map fun entry => (stream.name, entry)).filter
          (fun entry => entry.1 = path) = stream.candidates.zipIdx.map
            fun entry => (stream.name, entry) := by
        simp [List.filter_map, Function.comp_def, hname]
      rw [hall, if_pos (by simpa using hname)]
      rfl
    · have hnone : (stream.candidates.zipIdx.map fun entry => (stream.name, entry)).filter
          (fun entry => entry.1 = path) = [] := by
        simp [List.filter_map, Function.comp_def, hname]
      rw [hnone, if_neg (by simpa using hname)]
      rfl

theorem streamIds_eq (streams : List (RankedStream S)) :
    F32.streamIds streams = (streamEntries streams).map fun entry => entry.2.1.recordId := by
  rw [F32.streamIds, streamEntries, List.map_flatMap]
  refine List.flatMap_congr fun stream _ => ?_
  rw [List.map_map, ← List.zipIdx_map_fst 0 stream.candidates, List.map_map]
  simp [Function.comp_def]

/-- The lexical score of a record depends on the lexical streams. -/
theorem textScore_eq (streams : List (RankedStream S)) (id : String) :
    textScore streams id =
      (((streamEntries (streams.filter fun stream => stream.name = .lexical)).findLast? fun entry =>
        entry.2.1.recordId = id).map fun entry => entry.2.1.score) := by
  rw [← filter_streamEntries, textScore, ownEntries, List.findLast?, List.findLast?,
    ← List.filter_reverse, ← List.filter_reverse, List.find?_filter, List.find?_filter]
  refine congrArg _ (congrArg (List.find? · _) ?_)
  funext entry
  exact decide_eq_decide.2 and_comm

theorem textScore_isSome (streams : List (RankedStream S)) (id : String) :
    (textScore streams id).isSome = true ↔ id ∈ F32.pathIds .lexical streams := by
  rw [textScore_eq, Option.isSome_map, List.findLast?, List.find?_isSome, F32.pathIds, streamIds_eq]
  simp

/-! ### What is listed for a record -/

namespace F32

variable {streams : List (RankedStream ℚ)} {candidate : FusedCandidate ℚ}

theorem streamIds_filter_nonempty (p : RankedStream S → Bool) (streams : List (RankedStream S)) :
    streamIds (streams.filter fun stream => p stream && !stream.candidates.isEmpty) =
      streamIds (streams.filter p) := by
  rw [streamIds_eq, streamIds_eq, streamEntries_filter_nonempty]

theorem rrfScore_filter_nonempty (p : RankedStream ℚ → Bool) (streams : List (RankedStream ℚ))
    (id : String) :
    rrfScore (streams.filter fun stream => p stream && !stream.candidates.isEmpty) id =
      rrfScore (streams.filter p) id := by
  rw [rrfScore, rrfScore, ownEntries, ownEntries, streamEntries_filter_nonempty]

/-- **Every record of the streams is listed.** -/
theorem mem_ids_fuseQueryStreams (ops : F32 S) (streams : List (RankedStream S)) (id : String) :
    id ∈ (ops.fuseQueryStreams streams).map (·.recordId) ↔ id ∈ streamIds streams := by
  constructor
  · intro h
    obtain ⟨candidate, hcandidate, rfl⟩ := List.mem_map.1 h
    exact ops.mem_fuseQueryStreams hcandidate
  · intro h
    unfold fuseQueryStreams
    dsimp only
    split_ifs with hnone
    · exact (ops.mem_fuseRrf _ _).2 h
    · rw [List.map_append, List.mem_append]
      by_cases hlisted : id ∈ (ops.fuseRrf (streams.filter fun stream =>
          stream.name.isEvidence && !stream.candidates.isEmpty)).map (·.recordId)
      · exact .inl hlisted
      · -- The record is in no stream with evidence, so it is in one of the others.
        rw [ops.mem_fuseRrf, streamIds_filter_nonempty] at hlisted
        obtain ⟨stream, hstream, hid⟩ := List.mem_flatMap.1 h
        have hfallback : id ∈ streamIds (streams.filter fun stream =>
            !stream.name.isEvidence && !stream.candidates.isEmpty) := by
          rw [streamIds_filter_nonempty]
          refine List.mem_flatMap.2 ⟨stream, List.mem_filter.2 ⟨hstream, ?_⟩, hid⟩
          rw [Bool.not_eq_true', Bool.eq_false_iff]
          exact fun hevidence => hlisted
            (List.mem_flatMap.2 ⟨stream, List.mem_filter.2 ⟨hstream, hevidence⟩, hid⟩)
        obtain ⟨candidate, hcandidate, rfl⟩ := List.mem_map.1 ((ops.mem_fuseRrf _ _).2 hfallback)
        refine .inr (List.mem_map_of_mem (List.mem_filter.2 ⟨hcandidate, ?_⟩))
        rw [decide_eq_true_eq, ops.mem_fuseRrf, streamIds_filter_nonempty]
        exact hlisted

/-- When some record has evidence, the final score of a record is that of the streams with evidence
or, for a record without, that of the other streams. -/
theorem finalScore_fuseQueryStreams (h : candidate ∈ rational.fuseQueryStreams streams)
    (hevidence : streamIds (evidenceStreams streams) ≠ []) :
    candidate.finalScore =
      if candidate.recordId ∈ streamIds (evidenceStreams streams) then
        rrfScore (evidenceStreams streams) candidate.recordId
      else rrfScore (fallbackStreams streams) candidate.recordId := by
  rw [evidenceStreams] at hevidence ⊢
  unfold fuseQueryStreams at h
  dsimp only at h
  split_ifs at h with hnone
  · rw [← streamIds_filter_nonempty, List.isEmpty_iff.1 hnone] at hevidence
    exact absurd rfl hevidence
  · rcases List.mem_append.1 h with h | h
    · have hid := (rational.mem_fuseRrf _ _).1 (List.mem_map_of_mem h)
      rw [streamIds_filter_nonempty] at hid
      rw [if_pos hid, finalScore_fuseRrf h, rrfScore_filter_nonempty]
    · obtain ⟨hmem, hnew⟩ := List.mem_filter.1 h
      rw [decide_eq_true_eq, rational.mem_fuseRrf, streamIds_filter_nonempty] at hnew
      rw [if_neg hnew, finalScore_fuseRrf hmem, rrfScore_filter_nonempty]
      rfl

/-- **The lexical score of a record.** -/
theorem lexical_eq_textScore {ops : F32 S} {streams : List (RankedStream S)}
    {candidate : FusedCandidate S} (h : candidate ∈ ops.fuseQueryStreams streams) :
    candidate.lexical = textScore streams candidate.recordId := by
  by_cases hscored : candidate.lexical.isSome = true
  · have hkept : (streams.filter fun stream => stream.name.isEvidence &&
        !stream.candidates.isEmpty).filter
        (fun stream => stream.name = .lexical) =
          streams.filter fun stream => decide (stream.name = .lexical) &&
            !stream.candidates.isEmpty := by
      rw [List.filter_filter]
      refine List.filter_congr fun stream _ => ?_
      by_cases hname : stream.name = .lexical
      · simp [hname, PathId.isEvidence]
      · simp [hname]
    have htext : ∀ id, textScore (streams.filter fun stream =>
        stream.name.isEvidence && !stream.candidates.isEmpty) id = textScore streams id := by
      intro id
      rw [textScore_eq, textScore_eq, hkept, streamEntries_filter_nonempty]
    unfold fuseQueryStreams at h
    dsimp only at h
    split_ifs at h
    · exact lexical_fuseRrf h
    · rcases List.mem_append.1 h with h | h
      · rw [lexical_fuseRrf h, htext]
      · -- What only the other streams have is not scored.
        obtain ⟨hmem, -⟩ := List.mem_filter.1 h
        rw [ops.scored_fuseRrf scoreOf_lexical hmem] at hscored
        simp only [pathIds, streamIds, List.mem_flatMap, List.mem_filter,
          decide_eq_true_eq] at hscored
        obtain ⟨stream, ⟨⟨-, hplain⟩, hname⟩, -⟩ := hscored
        rw [hname] at hplain
        cases hplain
  · have hnone : ¬ (textScore streams candidate.recordId).isSome = true := by
      rw [textScore_isSome]
      exact fun hid => hscored ((ops.lexical_fuseQueryStreams h).2 hid)
    rw [Option.not_isSome_iff_eq_none] at hscored hnone
    rw [hscored, hnone]

/-! ### The final order -/

/-- The bounds of a list are of the list, and everything in it is between them. -/
theorem bounds_spec (first : ℚ) (rest : List ℚ) :
    let bounds := rest.foldl (fun bounds score =>
      (rational.min bounds.1 score, rational.max bounds.2 score)) (first, first)
    (bounds.1 ∈ first :: rest ∧ bounds.2 ∈ first :: rest) ∧
      ∀ score ∈ first :: rest, bounds.1 ≤ score ∧ score ≤ bounds.2 := by
  induction rest using List.reverseRecOn with
  | nil => simp
  | append_singleton rest score ih =>
    obtain ⟨⟨hlow, hhigh⟩, hbetween⟩ := ih
    rw [List.foldl_append, List.foldl_cons, List.foldl_nil]
    generalize rest.foldl (fun bounds score =>
      (rational.min bounds.1 score, rational.max bounds.2 score)) (first, first) = bounds
      at hlow hhigh hbetween
    dsimp only
    rw [min_rational, max_rational, ← List.cons_append]
    refine ⟨⟨?_, ?_⟩, ?_⟩
    · rcases min_choice bounds.1 score with h | h
      · rw [h]
        exact List.mem_append_left _ hlow
      · rw [h]
        exact List.mem_append_right _ (List.mem_singleton.2 rfl)
    · rcases max_choice bounds.2 score with h | h
      · rw [h]
        exact List.mem_append_left _ hhigh
      · rw [h]
        exact List.mem_append_right _ (List.mem_singleton.2 rfl)
    · refine List.forall_mem_append.2 ⟨fun other hother => ?_, List.forall_mem_singleton.2 ?_⟩
      · exact ⟨(min_le_left _ _).trans (hbetween other hother).1,
          (hbetween other hother).2.trans (le_max_left _ _)⟩
      · exact ⟨min_le_right _ _, le_max_right _ _⟩

end F32

/-- All lexical scores of the records are within the tolerance of a tie. -/
def TextScoresTied (streams : List (RankedStream ℚ)) : Prop :=
  ∀ id id' x y, textScore streams id = some x → textScore streams id' = some y →
    |x - y| ≤ 1 / 1000000

namespace F32

theorem lexicalScoresAreTied_iff {candidates : List (FusedCandidate ℚ)} :
    rational.lexicalScoresAreTied candidates = true ↔
      ∀ x ∈ candidates.filterMap (·.lexical), ∀ y ∈ candidates.filterMap (·.lexical),
      |x - y| ≤ 1 / 1000000 := by
  have hfinite : (candidates.filterMap (·.lexical)).filter rational.isFinite =
      candidates.filterMap (·.lexical) := List.filter_eq_self.2 fun _ _ => rfl
  unfold lexicalScoresAreTied
  rw [hfinite]
  cases candidates.filterMap (·.lexical) with
  | nil => simp
  | cons first rest =>
    obtain ⟨⟨hlow, hhigh⟩, hbetween⟩ := bounds_spec first rest
    dsimp only at hlow hhigh hbetween ⊢
    generalize rest.foldl (fun bounds score =>
      (rational.min bounds.1 score, rational.max bounds.2 score)) (first, first) = bounds
      at hlow hhigh hbetween ⊢
    have hle : bounds.1 ≤ bounds.2 := (hbetween bounds.1 hlow).2
    have habs : rational.abs (rational.sub bounds.2 bounds.1) = bounds.2 - bounds.1 := by
      change (if Rat.blt (bounds.2 - bounds.1) 0 = true then _ else _) = bounds.2 - bounds.1
      have hblt : Rat.blt (bounds.2 - bounds.1) 0 = true ↔ bounds.2 - bounds.1 < 0 := Iff.rfl
      rw [if_neg fun h => absurd (hblt.1 h) (not_lt.2 (sub_nonneg.2 hle))]
      rfl
    rw [habs, le_rational]
    constructor
    · intro hwidth x hx y hy
      have hxs := hbetween x hx
      have hys := hbetween y hy
      refine abs_le'.2 ⟨(sub_le_sub hxs.2 hys.1).trans hwidth, ?_⟩
      rw [neg_sub]
      exact (sub_le_sub hys.2 hxs.1).trans hwidth
    · intro hall
      exact (le_abs_self _).trans (hall bounds.2 hhigh bounds.1 hlow)

theorem lexicalScoresAreTied_fuseQueryStreams (streams : List (RankedStream ℚ)) :
    rational.lexicalScoresAreTied (rational.fuseQueryStreams streams) = true ↔
      TextScoresTied streams := by
  rw [lexicalScoresAreTied_iff]
  have hlisted : ∀ x, x ∈ (rational.fuseQueryStreams streams).filterMap (·.lexical) ↔
      ∃ id, textScore streams id = some x := by
    intro x
    rw [List.mem_filterMap]
    constructor
    · rintro ⟨candidate, hcandidate, hx⟩
      exact ⟨candidate.recordId, (lexical_eq_textScore hcandidate).symm.trans hx⟩
    · rintro ⟨id, hx⟩
      have hid : id ∈ lexicalIds streams := (textScore_isSome streams id).1 (by rw [hx]; rfl)
      obtain ⟨candidate, hcandidate, rfl⟩ := rational.exists_mem_of_lexicalIds hid
      exact ⟨candidate, hcandidate, (lexical_eq_textScore hcandidate).trans hx⟩
  constructor
  · intro h id id' x y hx hy
    exact h x ((hlisted x).2 ⟨id, hx⟩) y ((hlisted y).2 ⟨id', hy⟩)
  · intro h x hx y hy
    obtain ⟨id, hx⟩ := (hlisted x).1 hx
    obtain ⟨id', hy⟩ := (hlisted y).1 hy
    exact h id id' x y hx hy

end F32

/-- The path whose scores a query sorts its records by: the lexical path when they are not tied, or
else the vector path. -/
def Leads (hasText hasVector : Bool) (streams : List (RankedStream ℚ)) : PathId → Prop
  | .lexical => hasText = true ∧ ¬ TextScoresTied streams
  | .vector => ¬ (hasText = true ∧ ¬ TextScoresTied streams) ∧ hasVector = true
  | _ => False

/-- Every record with evidence is listed before every record without. -/
def EvidenceFirst (streams : List (RankedStream ℚ)) (ranked : List (FusedCandidate ℚ)) : Prop :=
  ranked.Pairwise fun first second =>
    second.recordId ∈ F32.streamIds (evidenceStreams streams) →
      first.recordId ∈ F32.streamIds (evidenceStreams streams)

/-- A record with evidence outscores one without: by its final score, or by its id when the scores
are equal. -/
def Outscores (streams : List (RankedStream ℚ)) (id other : String) : Prop :=
  rrfScore (fallbackStreams streams) other < rrfScore (evidenceStreams streams) id ∨
    rrfScore (fallbackStreams streams) other = rrfScore (evidenceStreams streams) id ∧ id < other

namespace F32

variable {streams : List (RankedStream ℚ)}

/-- What has evidence is listed first. -/
theorem evidenceFirst_fuseQueryStreams (streams : List (RankedStream ℚ)) :
    EvidenceFirst streams (rational.fuseQueryStreams streams) := by
  unfold fuseQueryStreams
  dsimp only
  split_ifs with hnone
  · -- There is no evidence.
    refine List.pairwise_of_forall fun first second hsecond => ?_
    rw [evidenceStreams, ← streamIds_filter_nonempty, List.isEmpty_iff.1 hnone] at hsecond
    cases hsecond
  · have hleft : ∀ candidate ∈ rational.fuseRrf (streams.filter fun stream =>
        stream.name.isEvidence && !stream.candidates.isEmpty),
          candidate.recordId ∈ streamIds (evidenceStreams streams) := by
      intro candidate hcandidate
      rw [evidenceStreams, ← streamIds_filter_nonempty]
      exact (rational.mem_fuseRrf _ _).1 (List.mem_map_of_mem hcandidate)
    rw [EvidenceFirst, List.pairwise_append]
    refine ⟨List.pairwise_of_forall_mem_list fun first hfirst _ _ _ => hleft first hfirst,
      List.pairwise_of_forall_mem_list fun first _ second hsecond hid => ?_,
      fun first hfirst _ _ _ => hleft first hfirst⟩
    have hnew := (List.mem_filter.1 hsecond).2
    rw [decide_eq_true_eq, rational.mem_fuseRrf, streamIds_filter_nonempty] at hnew
    exact absurd hid hnew

/-- An order by the scores of a path and then by final scores keeps the evidence first exactly when
what has no score of the path outscores what has no evidence. -/
theorem evidenceFirst_sortBy {order : FusedCandidate ℚ → FusedCandidate ℚ → Ordering}
    [Std.TransCmp order] {get : FusedCandidate ℚ → Option ℚ} {path : PathId}
    (hget : ScoreOf get path) (hscored : ∀ a b, (get a).isSome = true → get b = none →
      order b a = .gt)
    (hplain : ∀ a b, get a = none → get b = none → order a b = rational.fusedOrder a b) :
    EvidenceFirst streams (sortBy order (rational.fuseQueryStreams streams)) ↔
      ∀ id ∈ streamIds (evidenceStreams streams), id ∉ pathIds path streams →
        ∀ other ∈ streamIds streams, other ∉ streamIds (evidenceStreams streams) →
          Outscores streams id other := by
  have hlisted : ∀ {candidate}, candidate ∈ sortBy order (rational.fuseQueryStreams streams) ↔
      candidate ∈ rational.fuseQueryStreams streams := (sortBy_perm _ _).mem_iff
  have hnone : ∀ {candidate}, candidate ∈ rational.fuseQueryStreams streams →
      candidate.recordId ∉ pathIds path streams → get candidate = none := by
    intro candidate hcandidate hid
    rw [← Option.not_isSome_iff_eq_none, rational.scored_fuseQueryStreams hget hcandidate]
    exact hid
  -- A record without evidence has no score of a path with evidence.
  have hevident : ∀ {id}, id ∈ pathIds path streams → id ∈ streamIds (evidenceStreams streams) := by
    intro id hid
    obtain ⟨stream, hstream, hmem⟩ := List.mem_flatMap.1 hid
    obtain ⟨hstream, hname⟩ := List.mem_filter.1 hstream
    refine List.mem_flatMap.2 ⟨stream, List.mem_filter.2 ⟨hstream, ?_⟩, hmem⟩
    rw [of_decide_eq_true hname]
    exact hget.evidence
  have horder : ∀ {a b : FusedCandidate ℚ}, a ∈ rational.fuseQueryStreams streams →
      b ∈ rational.fuseQueryStreams streams → a.recordId ∈ streamIds (evidenceStreams streams) →
        b.recordId ∉ streamIds (evidenceStreams streams) →
          ((rational.fusedOrder a b).isLE = true ↔ Outscores streams a.recordId b.recordId) := by
    intro a b ha hb hain hbout
    have hsome : streamIds (evidenceStreams streams) ≠ [] := List.ne_nil_of_mem hain
    rw [fusedOrder, compare_scoreOrder, finalScore_fuseQueryStreams ha hsome,
      finalScore_fuseQueryStreams hb hsome, if_pos hain, if_neg hbout, Outscores]
    have hne : a.recordId ≠ b.recordId := fun heq => hbout (heq ▸ hain)
    rw [Ordering.isLE_then_iff_or, compare_lt_iff_lt, compare_eq_iff_eq]
    refine or_congr_right (and_congr_right fun _ => ?_)
    rw [Ordering.isLE_iff_eq_lt_or_eq_eq, compare_lt_iff_lt, compare_eq_iff_eq, or_iff_left hne]
  constructor
  · intro hfirst id hid hplainId other hother hotherOut
    obtain ⟨a, ha, rfl⟩ := List.mem_map.1 ((mem_ids_fuseQueryStreams rational streams id).2
      (by
        obtain ⟨stream, hstream, hmem⟩ := List.mem_flatMap.1 hid
        exact List.mem_flatMap.2 ⟨stream, List.mem_of_mem_filter hstream, hmem⟩))
    obtain ⟨b, hb, rfl⟩ :=
      List.mem_map.1 ((mem_ids_fuseQueryStreams rational streams other).2 hother)
    have hanone := hnone ha hplainId
    have hbnone := hnone hb fun hin => hotherOut (hevident hin)
    have hne : a ≠ b := fun heq => hotherOut (heq ▸ hid)
    -- One of the two stands before the other, and it is not the one without evidence.
    have hbefore : (order a b).isLE = true := by
      rcases rel_or_rel_of_pairwise
        ((pairwise_sortBy (rational.fuseQueryStreams streams)).and hfirst) (hlisted.2 ha)
        (hlisted.2 hb) hne with hab | hba
      · exact hab.1
      · exact absurd (hba.2 hid) hotherOut
    rw [hplain a b hanone hbnone] at hbefore
    exact (horder ha hb hid hotherOut).1 hbefore
  · intro hcondition
    refine (pairwise_sortBy (rational.fuseQueryStreams streams)).imp_of_mem
      fun {a b} ha hb hle hbin => ?_
    rw [hlisted] at ha hb
    by_contra haout
    have hanone := hnone ha fun hin => haout (hevident hin)
    cases hbscore : get b with
    | some score =>
      rw [hscored b a (by rw [hbscore]; rfl) hanone] at hle
      cases hle
    | none =>
      have hplainId : b.recordId ∉ pathIds path streams := by
        rw [← rational.scored_fuseQueryStreams hget hb, hbscore]
        exact Bool.false_ne_true
      have hout := hcondition b.recordId hbin hplainId a.recordId
        (rational.mem_fuseQueryStreams ha) haout
      have hba := (horder hb ha hbin haout).2 hout
      rw [hplain a b hanone hbscore] at hle
      have heq : rational.fusedOrder a b = .eq := Std.OrientedCmp.isLE_antisymm hle hba
      rw [fusedOrder, Ordering.then_eq_eq, compare_eq_iff_eq] at heq
      exact haout (heq.2 ▸ hbin)

theorem evidenceFirst_lexicalFirst :
    EvidenceFirst streams (sortBy rational.lexicalFirstOrder (rational.fuseQueryStreams streams)) ↔
      ∀ id ∈ streamIds (evidenceStreams streams), id ∉ pathIds .lexical streams →
        ∀ other ∈ streamIds streams, other ∉ streamIds (evidenceStreams streams) →
          Outscores streams id other := by
  refine evidenceFirst_sortBy scoreOf_lexical (fun a b ha hb => ?_) fun a b ha hb => ?_
  · obtain ⟨score, ha⟩ := Option.isSome_iff_exists.1 ha
    rw [lexicalFirstOrder, ha, hb]
  · rw [lexicalFirstOrder, ha, hb]

theorem evidenceFirst_vectorFirst :
    EvidenceFirst streams (sortBy rational.vectorFirstOrder (rational.fuseQueryStreams streams)) ↔
      ∀ id ∈ streamIds (evidenceStreams streams), id ∉ pathIds .vector streams →
        ∀ other ∈ streamIds streams, other ∉ streamIds (evidenceStreams streams) →
          Outscores streams id other := by
  refine evidenceFirst_sortBy scoreOf_vector (fun a b ha hb => ?_) fun a b ha hb => ?_
  · obtain ⟨score, ha⟩ := Option.isSome_iff_exists.1 ha
    rw [vectorFirstOrder, ha, hb]
  · rw [vectorFirstOrder, ha, hb]

end F32

/-- The fusion lists every record of the streams once, and the ranking lists evidence first. -/
structure KeepsTiers (hasText hasVector : Bool) (streams : List (RankedStream ℚ)) : Prop where
  once : ((F32.rational.fuseQueryStreams streams).map (·.recordId)).Nodup
  all : ∀ id, id ∈ (F32.rational.fuseQueryStreams streams).map (·.recordId) ↔
    id ∈ F32.streamIds streams
  evidenceFirst : EvidenceFirst streams (F32.rational.rank hasText hasVector streams)

/-- **When evidence outranks fallback.**  The fusion lists every record of the streams once.  A
query's ranking has all records with evidence before all others exactly when, whatever path leads
its final order, each record with evidence but without a score of that path outscores every record
without evidence. -/
theorem evidence_outranks_fallback_iff (hasText hasVector : Bool)
    (streams : List (RankedStream ℚ)) :
    KeepsTiers hasText hasVector streams ↔
      ∀ path, Leads hasText hasVector streams path →
        ∀ id ∈ F32.streamIds (evidenceStreams streams), id ∉ F32.pathIds path streams →
          ∀ other ∈ F32.streamIds streams, other ∉ F32.streamIds (evidenceStreams streams) →
            Outscores streams id other := by
  have hkeeps : KeepsTiers hasText hasVector streams ↔
      EvidenceFirst streams (F32.rational.rank hasText hasVector streams) :=
    ⟨fun h => h.evidenceFirst, fun h => ⟨F32.rational.nodup_fuseQueryStreams streams,
      F32.mem_ids_fuseQueryStreams F32.rational streams, h⟩⟩
  have htied := F32.lexicalScoresAreTied_fuseQueryStreams streams
  have hlexical : (hasText && !F32.rational.lexicalScoresAreTied
      (F32.rational.fuseQueryStreams streams)) = true ↔
      hasText = true ∧ ¬ TextScoresTied streams := by
    rw [Bool.and_eq_true, Bool.not_eq_true', ← Bool.not_eq_true, htied]
  rw [hkeeps, F32.rank]
  split_ifs with hsort hvector
  · -- The lexical path leads.
    rw [F32.evidenceFirst_lexicalFirst]
    constructor
    · intro h path hpath
      cases path with
      | lexical => exact h
      | vector => exact absurd (hlexical.1 hsort) hpath.1
      | _ => exact hpath.elim
    · exact fun h => h .lexical (hlexical.1 hsort)
  · -- The vector path leads.
    rw [hlexical] at hsort
    rw [F32.evidenceFirst_vectorFirst]
    constructor
    · intro h path hpath
      cases path with
      | lexical => exact absurd hpath hsort
      | vector => exact h
      | _ => exact hpath.elim
    · exact fun h => h .vector ⟨hsort, hvector⟩
  · -- The list stays as it was fused.
    rw [hlexical] at hsort
    refine iff_of_true (F32.evidenceFirst_fuseQueryStreams streams) fun path hpath => ?_
    cases path with
    | lexical => exact absurd hpath hsort
    | vector => exact absurd hpath.2 hvector
    | _ => exact hpath.elim

/-- Two text hits with different scores, a graph hit, and a record that only matches the filter. -/
def mixedStreams : List (RankedStream ℚ) :=
  [⟨.lexical, [⟨"b", 2, 0⟩, ⟨"c", 1, 0⟩]⟩, ⟨.graph, [⟨"z", 1, 0⟩]⟩, ⟨.relational, [⟨"a", 1, 0⟩]⟩]

/-- **The graph hit is listed after the record without evidence**, which has the same reciprocal
rank in its own stream and the smaller id. -/
theorem outranked_evidence :
    ¬ ∀ (hasText hasVector : Bool) (streams : List (RankedStream ℚ)),
    KeepsTiers hasText hasVector streams := by
  intro h
  have hfirst := (h true false mixedStreams).evidenceFirst
  have htied : F32.rational.lexicalScoresAreTied
      (F32.rational.fuseQueryStreams mixedStreams) = false := by
    rw [← Bool.not_eq_true, F32.lexicalScoresAreTied_fuseQueryStreams]
    intro htied
    exact absurd (abs_le'.1 (htied "b" "c" 2 1 rfl rfl)).1 (by decide +kernel)
  rw [F32.rank, htied] at hfirst
  have hout := F32.evidenceFirst_lexicalFirst.1 hfirst "z" (by decide)
    (by decide) "a" (by decide) (by decide)
  have hequal : rrfScore (fallbackStreams mixedStreams) "a" = rrfScore
      (evidenceStreams mixedStreams) "z" := by
    decide +kernel
  rcases hout with hlt | ⟨-, hlt⟩
  · exact absurd hequal hlt.ne
  · exact absurd hlt (by decide)

end TraceDB
