import Mathlib.Logic.Relation
import TraceDB.Index.Legacy
import TraceDB.Index.Scores
import TraceDB.Query.Tiers

/-!
# Small answers of a vector index

When no more entries can be scored than a query asks for, the index should return all of them.  A
search that visits too little falls back to scoring every entry, and it counts the entry point as
visited as soon as the graph has a level above 0.

* `search_by_none` : a search without a filter is one that allows all entries of the field.
* `small_answers_iff` : a search returns what it promises unless it overlooks the entry point: the
  walk at level 0 has room for all entries but one, and the entry point is the last of them.
-/

namespace TraceDB

variable {S : Type} (ops : F32 S)

/-! ### Searches with or without a filter -/

/-- `vector_scores_for_keys`, with or without a filter. -/
def vectorScoresForKeysBy (keys : List String) (entries : EntryMap S) (query : List S)
    (allowed : Option (List (String × ℕ))) : List (VectorScore S) :=
  (keys.filterMap fun key => entries[key]?.bind fun entry =>
    vectorScoreForEntry ops entry query).filter (scoreAllowedBy allowed)

/-- The scores of what a walk has found, with or without a filter. -/
def walkScoresBy (found : List String) (entries : EntryMap S) (query : List S) (limit : ℕ)
    (allowed : Option (List (String × ℕ))) : List (VectorScore S) :=
  (sortBy (vectorScoreOrder ops) (vectorScoresForKeysBy ops found entries query allowed)).take limit

namespace VectorIndexArtifact

variable (artifact : VectorIndexArtifact S)

/-- `search_hnsw`, with or without a filter. -/
def searchHnswBy (field : String) (query : List S) (limit : ℕ)
    (allowed : Option (List (String × ℕ))) (entries : EntryMap S) : VectorSearchReport S :=
  let exact : VectorSearchReport S :=
    ⟨exactVectorScores ops entries query limit allowed, entries.size, 0, true⟩
  match artifact.hnsw[field]? with
  | none => exact
  | some graph =>
    match graph.entryPoint with
    | none => exact
    | some entryPoint =>
      if entries.contains entryPoint then
        let allowedCount := (allowed.map fun allowed => allowed.dedup.length).getD entries.size
        let (candidates, visited) := walkLevelZero ops graph entries query entryPoint
          (artifact.searchWidth limit allowedCount entries.size)
        let scores := walkScoresBy ops candidates entries query limit allowed
        if scores.length < limit ∧ scores.length < allowedCount ∧ visited.size < entries.size then
          { exact with visitedCount := visited.size }
        else ⟨scores, entries.size, visited.size, false⟩
      else exact

/-- `search_vector_with_report_filtered`, with or without a filter. -/
def searchBy (field : String) (query : List S) (limit : ℕ) (allowed : Option (List (String × ℕ))) :
    VectorSearchReport S :=
  if limit = 0 then ⟨[], 0, 0, false⟩
  else
    let entries := fieldEntriesByKey artifact.entries field
    if entries.isEmpty then ⟨[], 0, 0, false⟩
    else artifact.searchHnswBy ops field query limit allowed entries

end VectorIndexArtifact

variable {ops} {entries : List (VectorIndexEntry S)} {field : String} {query : List S} {limit : ℕ}

theorem search_by_some (artifact : VectorIndexArtifact S) (field : String)
    (query : List S) (limit : ℕ) (allowed : List (String × ℕ)) :
    artifact.searchBy ops field query limit (some allowed) =
      artifact.searchVectorWithReportFiltered ops field query limit allowed := rfl

/-- The record ids and versions of a field. -/
def entryPairs (entries : EntryMap S) : List (String × ℕ) :=
  entries.toList.map fun entry => (entry.2.recordId, entry.2.versionId)

theorem mem_entryPairs_of_score {score : VectorScore S} {entries : EntryMap S} {key : String}
    {entry : VectorIndexEntry S} (hentry : entries[key]? = some entry)
    (hscore : vectorScoreForEntry ops entry query = some score) :
    (score.recordId, score.versionId) ∈ entryPairs entries := by
  obtain ⟨value, -, rfl⟩ := Option.map_eq_some_iff.1 hscore
  exact List.mem_map.2 ⟨(key, entry), SortedMap.mem_toList.2 hentry, rfl⟩

theorem nodup_entryPairs : (entryPairs (fieldEntriesByKey entries field)).Nodup := by
  refine List.pairwise_map.2
    (Std.ExtTreeMap.distinct_keys_toList.imp_of_mem fun {a b} ha hb hne hsame => ?_)
  obtain ⟨hid, hversion⟩ := Prod.mk.inj hsame
  obtain ⟨hkey, hlast⟩ := lastEntry_of_getElem? (SortedMap.mem_toList.1 ha)
  obtain ⟨hkey', hlast'⟩ := lastEntry_of_getElem? (SortedMap.mem_toList.1 hb)
  rw [hid, hversion, hlast'] at hlast
  exact hne (compare_eq_iff_eq.2 (hkey.symm.trans (Option.some.inj hlast ▸ hkey')))

/-- What a filter lets through does not change where it allows every score. -/
theorem filter_scoreAllowedBy {scores : List (VectorScore S)} {pairs : List (String × ℕ)}
    (h : ∀ score ∈ scores, (score.recordId, score.versionId) ∈ pairs) :
    scores.filter (scoreAllowedBy none) = scores.filter (scoreAllowedBy (some pairs)) :=
  List.filter_congr fun score hscore => (decide_eq_true (h score hscore)).symm

/-- **A search without a filter allows all entries of the field.** -/
theorem search_by_none (artifact : VectorIndexArtifact S) (field : String)
    (query : List S) (limit : ℕ) :
    artifact.searchBy ops field query limit none =
      artifact.searchVectorWithReportFiltered ops field query limit
        (entryPairs (fieldEntriesByKey artifact.entries field)) := by
  rw [← search_by_some]
  set pairs := entryPairs (fieldEntriesByKey artifact.entries field) with hpairs
  have hcount : pairs.dedup.length = (fieldEntriesByKey artifact.entries field).size := by
    rw [hpairs, List.Nodup.dedup nodup_entryPairs, entryPairs, List.length_map,
      Std.ExtTreeMap.length_toList]
  have hexact : exactVectorScores ops (fieldEntriesByKey artifact.entries field) query limit none =
      exactVectorScores ops (fieldEntriesByKey artifact.entries field) query
        limit (some pairs) := by
    rw [exactVectorScores, exactVectorScores, exactScoresBy, exactScoresBy, filter_scoreAllowedBy]
    intro score hscore
    obtain ⟨entry, hentry, hsome⟩ := List.mem_filterMap.1 hscore
    exact mem_entryPairs_of_score (SortedMap.mem_toList.1 hentry) hsome
  have hwalk : ∀ found,
      walkScoresBy ops found (fieldEntriesByKey artifact.entries field) query limit none =
      walkScoresBy ops found (fieldEntriesByKey artifact.entries field) query
        limit (some pairs) := by
    intro found
    rw [walkScoresBy, walkScoresBy, vectorScoresForKeysBy, vectorScoresForKeysBy,
      filter_scoreAllowedBy]
    intro score hscore
    obtain ⟨key, -, hsome⟩ := List.mem_filterMap.1 hscore
    obtain ⟨entry, hentry, hsome⟩ := Option.bind_eq_some_iff.1 hsome
    exact mem_entryPairs_of_score hentry hsome
  unfold VectorIndexArtifact.searchBy VectorIndexArtifact.searchHnswBy
  simp only [hexact, hwalk, Option.map_none, Option.getD_none, Option.map_some,
    Option.getD_some, hcount]

/-! ### The order of keys -/

/-- `Iterator::min_by` finds an element that none comes before. -/
theorem minBy_isLE {α : Type} {order : α → α → Ordering} (order' : α → α → Ordering)
    [Std.TransCmp order'] {xs : List α} {x : α}
    (hsame : ∀ a ∈ xs, ∀ b ∈ xs, order a b = order' a b) (h : minBy order xs = some x) :
    ∀ y ∈ xs, (order x y).isLE = true := by
  cases xs with
  | nil => cases h
  | cons z zs =>
    obtain rfl := Option.some.inj h
    have hfold : ∀ (ys : List α) (least : α), (∀ y ∈ ys, y ∈ z :: zs) → least ∈ z :: zs →
        let found := ys.foldl (fun least y => if (order least y).isLE then least else y) least
        found ∈ z :: zs ∧ (order' found least).isLE = true ∧ ∀ y ∈ ys,
          (order' found y).isLE = true := by
      intro ys
      induction ys with
      | nil =>
        intro least _ hleast
        have hself : order' least least = .eq := Std.ReflCmp.compare_self
        exact ⟨hleast, by rw [List.foldl_nil, hself]; rfl, fun y hy => absurd hy List.not_mem_nil⟩
      | cons y ys ih =>
        intro least hys hleast
        have hy := hys y List.mem_cons_self
        have hrest := fun y' hy' => hys y' (List.mem_cons_of_mem _ hy')
        rw [List.foldl_cons]
        split_ifs with hle
        · obtain ⟨hmem, hfirst, hall⟩ := ih least hrest hleast
          rw [hsame _ hleast _ hy] at hle
          exact ⟨hmem, hfirst, List.forall_mem_cons.2 ⟨Std.TransCmp.isLE_trans hfirst hle, hall⟩⟩
        · obtain ⟨hmem, hfirst, hall⟩ := ih y hrest hy
          rw [hsame _ hleast _ hy] at hle
          -- The least element so far comes after the new one.
          have hswap : order' y least = (order' least y).swap := Std.OrientedCmp.eq_swap
          have hafter : (order' y least).isLE = true := by
            rw [hswap]
            cases hord : order' least y with
            | gt => rfl
            | lt => exact absurd (hord ▸ rfl) hle
            | eq => rfl
          exact ⟨hmem, Std.TransCmp.isLE_trans hfirst hafter, List.forall_mem_cons.2 ⟨hfirst, hall⟩⟩
    obtain ⟨hmem, hfirst, hall⟩ :=
      hfold zs z (fun y hy => List.mem_cons_of_mem _ hy) List.mem_cons_self
    intro y hy
    rw [hsame _ hmem _ hy]
    exact (List.forall_mem_cons.2 ⟨hfirst, hall⟩ : ∀ y ∈ z :: zs, _) y hy

/-- The similarity of a key, or `f32::NEG_INFINITY`. -/
def keyScore (ops : F32 S) (entries : EntryMap S) (query : List S) (key : String) : S :=
  (entries[key]?.bind fun entry => ops.cosineSimilarity query entry.vector).getD ops.negInfinity

/-- `vector_key_order` on keys of entries. -/
def entryKeyOrder [LinearOrder S] (ops : F32 S) (entries : EntryMap S) (query : List S) :
    String → String → Ordering :=
  compareLex (fun a b => compareOn (keyScore ops entries query) b a)
    (compareLex (compareOn fun key => entries[key]?.map VectorIndexEntry.recordId)
      (compareOn fun key => entries[key]?.map VectorIndexEntry.versionId))

instance [LinearOrder S] (entries : EntryMap S) :
    Std.TransCmp (entryKeyOrder ops entries query) := by
  unfold entryKeyOrder
  infer_instance

/-- Keys of a field are told apart. -/
theorem entryKeyOrder_eq [LinearOrder S] {left right : String}
    (hleft : left ∈ fieldEntriesByKey entries field)
    (hright : right ∈ fieldEntriesByKey entries field)
    (h : entryKeyOrder ops (fieldEntriesByKey entries field) query left right = .eq) :
      left = right := by
  obtain ⟨leftEntry, hleft⟩ :=
    Option.isSome_iff_exists.1 (Std.ExtTreeMap.mem_iff_isSome_getElem?.1 hleft)
  obtain ⟨rightEntry, hright⟩ :=
    Option.isSome_iff_exists.1 (Std.ExtTreeMap.mem_iff_isSome_getElem?.1 hright)
  simp only [entryKeyOrder, compareLex, compareOn, Ordering.then_eq_eq, compare_eq_iff_eq,
    hleft, hright, Option.map_some] at h
  obtain ⟨-, hid, hversion⟩ := h
  obtain ⟨hkey, hlast⟩ := lastEntry_of_getElem? hleft
  obtain ⟨hkey', hlast'⟩ := lastEntry_of_getElem? hright
  have hid : leftEntry.recordId = rightEntry.recordId := compare_eq_iff_eq.1 hid
  have hversion : leftEntry.versionId = rightEntry.versionId := compare_eq_iff_eq.1 hversion
  rw [hid, hversion, hlast'] at hlast
  exact hkey.symm.trans (Option.some.inj hlast ▸ hkey')

theorem mem_levelZeroStart {entries : EntryMap S} {entryPoint key : String} :
    key ∈ Std.ExtTreeSet.ofList ((entryPoint :: (entries.keys.head?.filter
        fun first => first ≠ entryPoint).toList).filter fun key => entries.contains key) compare ↔
      key ∈ entries ∧ (key = entryPoint ∨ entries.keys.head? = some key) := by
  rw [Std.ExtTreeSet.mem_ofList, List.contains_iff_mem, List.mem_filter, List.mem_cons,
    Option.mem_toList, Option.filter_eq_some_iff, ← Std.ExtTreeMap.mem_iff_contains, and_comm]
  refine and_congr_right fun _ => ⟨fun h => h.imp_right And.left, fun h => ?_⟩
  by_cases hkey : key = entryPoint
  · exact .inl hkey
  · exact .inr ⟨h.resolve_left hkey, by simpa using hkey⟩

/-! ### The entry point left out -/

/-- A link of level 0 from another node than one. -/
def LinkAround (graph : HnswFieldGraph) (entries : EntryMap S) (avoided a b : String) : Prop :=
  a ≠ avoided ∧ b ∈ graph.neighborsAt 0 a ∧ b ∈ entries

/-- All entries but the entry point come before it, and are reached around it from the first one. -/
structure LeavesOut (ops : F32 S) (graph : HnswFieldGraph) (entries : EntryMap S) (query : List S)
    (entryPoint : String) : Prop where
  last : ∀ key ∈ entries, key ≠ entryPoint → vectorKeyOrder ops entries query key entryPoint = .lt
  around : ∀ key ∈ entries, key ≠ entryPoint → ∃ first, entries.keys.head? = some first ∧
    Relation.ReflTransGen (LinkAround graph entries entryPoint) first key

/-- What a set of keys misses of the entries, by its size. -/
theorem misses_one_iff {entries : EntryMap S} {set : Std.ExtTreeSet String compare}
    {missed : String} (hset : ∀ key ∈ set, key ∈ entries) (hentry : missed ∈ entries)
    (hmissed : missed ∉ set) :
    (∀ key ∈ entries, key ≠ missed → key ∈ set) ↔ entries.size = set.size + 1 := by
  have hnodup : (missed :: set.toList).Nodup :=
    List.nodup_cons.2 ⟨fun h => hmissed (Std.ExtTreeSet.mem_toList.1 h), nodup_toList⟩
  have hsub : (missed :: set.toList).Subperm entries.keys := by
    refine List.subperm_of_subset hnodup
      (List.cons_subset.2 ⟨Std.ExtTreeMap.mem_keys.2 hentry, fun key hkey => ?_⟩)
    exact Std.ExtTreeMap.mem_keys.2 (hset key (Std.ExtTreeSet.mem_toList.1 hkey))
  rw [← Std.ExtTreeMap.length_keys, ← Std.ExtTreeSet.length_toList, ← List.length_cons]
  constructor
  · intro hall
    refine le_antisymm
      (List.subperm_of_subset Std.ExtTreeMap.nodup_keys fun key hkey => ?_).length_le
      hsub.length_le
    by_cases hkey' : key = missed
    · exact hkey' ▸ List.mem_cons_self
    · exact List.mem_cons_of_mem _
        (Std.ExtTreeSet.mem_toList.2 (hall key (Std.ExtTreeMap.mem_keys.1 hkey) hkey'))
  · intro hsize key hkey hne
    have hmem := (hsub.perm_of_length_le hsize.le).mem_iff.2 (Std.ExtTreeMap.mem_keys.2 hkey)
    exact Std.ExtTreeSet.mem_toList.1 ((List.mem_cons.1 hmem).resolve_left hne)

section Order

variable [LinearOrder S] (hcmp : ∀ a b : S, ops.partialCmp a b = some (compare a b))

include hcmp

theorem scoreOrder_eq (a b : S) : ops.scoreOrder a b = compare b a := by
  rw [F32.scoreOrder, hcmp, Option.getD_some]

theorem vectorKeyOrder_eq {entries : EntryMap S} {left right : String} (hleft : left ∈ entries)
    (hright : right ∈ entries) :
    vectorKeyOrder ops entries query left right = entryKeyOrder ops entries query left right := by
  obtain ⟨leftEntry, hleft⟩ :=
    Option.isSome_iff_exists.1 (Std.ExtTreeMap.mem_iff_isSome_getElem?.1 hleft)
  obtain ⟨rightEntry, hright⟩ :=
    Option.isSome_iff_exists.1 (Std.ExtTreeMap.mem_iff_isSome_getElem?.1 hright)
  rw [vectorKeyOrder, scoreOrder_eq hcmp]
  simp only [entryKeyOrder, compareLex, compareOn, keyScore, hleft, hright]
  rfl

theorem transCmp_vectorScoreOrder : Std.TransCmp (vectorScoreOrder ops) := by
  have horder : vectorScoreOrder ops =
      compareLex (compareLex (fun a b => compareOn VectorScore.score b a)
        (compareOn VectorScore.recordId)) (compareOn VectorScore.versionId) := by
    funext a b
    rw [vectorScoreOrder, scoreOrder_eq hcmp]
    rfl
  rw [horder]
  infer_instance

theorem bestEntryKey_isLE {entries : EntryMap S} {frontier : Std.ExtTreeSet String compare}
    {best : String} (h : bestEntryKey ops entries query frontier = some best) {key : String}
    (hkey : key ∈ frontier) (hentry : key ∈ entries) :
      (vectorKeyOrder ops entries query best key).isLE = true := by
  refine minBy_isLE (entryKeyOrder ops entries query) (fun a ha b hb => ?_) h key
    (List.mem_filter.2 ⟨Std.ExtTreeSet.mem_toList.2 hkey, Std.ExtTreeMap.mem_iff_contains.1 hentry⟩)
  exact vectorKeyOrder_eq hcmp (Std.ExtTreeMap.mem_iff_contains.2 (List.mem_filter.1 ha).2)
    (Std.ExtTreeMap.mem_iff_contains.2 (List.mem_filter.1 hb).2)

/-- An entry point that is left out has all entries before it, and the walk goes around it. -/
theorem leavesOut_of_misses {graph : HnswFieldGraph} {entryPoint : String}
    (hentry : entryPoint ∈ fieldEntriesByKey entries field) {ef : ℕ}
    (hout : entryPoint ∉ levelZeroVisited ops graph
      (fieldEntriesByKey entries field) query entryPoint ef)
    (hall : ∀ key ∈ fieldEntriesByKey entries field, key ≠ entryPoint →
      key ∈ levelZeroVisited ops graph (fieldEntriesByKey entries field) query entryPoint ef) :
    LeavesOut ops graph (fieldEntriesByKey entries field) query entryPoint := by
  -- Every visited node was taken while the entry point was on the frontier.
  have htaken := bestFirst_around (Q := fun key => key = entryPoint ∨
      ∃ first, (fieldEntriesByKey entries field).keys.head? = some first ∧
        Relation.ReflTransGen
          (LinkAround graph (fieldEntriesByKey entries field) entryPoint) first key)
    (fun _ _ h => (bestEntryKey_mem h).1) (fun _ _ => Std.ExtTreeSet.not_mem_empty)
      (Nat.le_add_left _ _)
    (mem_levelZeroStart.2 ⟨hentry, .inl rfl⟩) (fun key hkey => ?_) (fun a hne hQ b hb => ?_) hout
  · refine ⟨fun key hkey hne => ?_, fun key hkey hne => ?_⟩
    · obtain ⟨-, hbefore⟩ := htaken key (hall key hkey hne)
      obtain ⟨frontier, hwaits, hbest⟩ := hbefore.resolve_left Std.ExtTreeSet.not_mem_empty
      have hle := bestEntryKey_isLE hcmp hbest hwaits hentry
      rw [vectorKeyOrder_eq hcmp hkey hentry] at hle ⊢
      cases hord : entryKeyOrder ops (fieldEntriesByKey entries field) query key entryPoint with
      | lt => rfl
      | eq => exact absurd (entryKeyOrder_eq hkey hentry hord) hne
      | gt => simp [hord] at hle
    · exact (htaken key (hall key hkey hne)).1.resolve_left hne
  · rcases hkey.resolve_left Std.ExtTreeSet.not_mem_empty |> mem_levelZeroStart.1 with ⟨-, h | h⟩
    · exact .inl h
    · exact .inr ⟨key, h, .refl⟩
  · obtain ⟨first, hfirst, hreach⟩ := hQ.resolve_left hne
    obtain ⟨hlink, hin⟩ := List.mem_filter.1 hb
    exact .inr ⟨first, hfirst, hreach.tail ⟨hne, hlink, Std.ExtTreeMap.mem_iff_contains.2 hin⟩⟩

/-- A walk with room for all entries but the entry point leaves it out when it is last. -/
theorem misses_of_leavesOut {graph : HnswFieldGraph} {entryPoint : String}
    (hentry : entryPoint ∈ fieldEntriesByKey entries field) {ef : ℕ} (hef : 1 ≤ ef)
    (hsize : (fieldEntriesByKey entries field).size = ef + 1)
    (hleaves : LeavesOut ops graph (fieldEntriesByKey entries field) query entryPoint) :
    entryPoint ∉ levelZeroVisited ops graph
      (fieldEntriesByKey entries field) query entryPoint ef := by
  have hvisits : max (min (max ef 1) (fieldEntriesByKey entries field).size) 1 = ef := by omega
  refine bestFirst_leaves_out (P := (· ∈ fieldEntriesByKey entries field))
    (fun _ _ h => (bestEntryKey_mem h).1) (fun frontier hbest key hkey hin => ?_)
    (fun _ _ => Std.ExtTreeSet.not_mem_empty) (Nat.le_add_left _ _)
    (fun _ h => absurd h Std.ExtTreeSet.not_mem_empty) Std.ExtTreeSet.not_mem_empty
    fun visited frontier hseen hlinked hfrontier => ?_
  · by_contra hne
    have hle := bestEntryKey_isLE hcmp hbest hkey hin
    have hswap : entryKeyOrder ops (fieldEntriesByKey entries field) query entryPoint key =
        (entryKeyOrder ops (fieldEntriesByKey entries field) query key entryPoint).swap :=
          Std.OrientedCmp.eq_swap
    rw [vectorKeyOrder_eq hcmp hentry hin, hswap, ← vectorKeyOrder_eq hcmp hin hentry,
      hleaves.last key hin hne] at hle
    exact absurd hle (by decide)
  · -- What is left on the frontier is the entry point, so the nodes around it are all visited.
    have hreached : ∀ first, (fieldEntriesByKey entries field).keys.head? = some first → ∀ key,
        Relation.ReflTransGen
          (LinkAround graph (fieldEntriesByKey entries field) entryPoint) first key →
          key ∈ visited ∨ key = entryPoint := by
      intro first hfirst key hreach
      have hknown : ∀ key ∈ fieldEntriesByKey entries field, Seen visited frontier key →
          key ∈ visited ∨ key = entryPoint :=
        fun key hin hkey => hkey.imp_right fun h => hfrontier key h hin
      induction hreach with
      | refl =>
        have hin : first ∈ fieldEntriesByKey entries field :=
          Std.ExtTreeMap.mem_keys.1 (List.mem_of_head? hfirst)
        exact hknown first hin (hseen first (.inr (mem_levelZeroStart.2 ⟨hin, .inr hfirst⟩)))
      | tail _ hlink ih =>
        obtain ⟨hne, hnext, hin⟩ := hlink
        refine hknown _ hin (hlinked _ (ih.resolve_right hne) _ ?_)
        exact List.mem_filter.2 ⟨hnext, Std.ExtTreeMap.mem_iff_contains.1 hin⟩
    have hsub : (fieldEntriesByKey entries field).keys.erase entryPoint ⊆ visited.toList := by
      intro key hkey
      obtain ⟨hne, hin⟩ := (List.Nodup.mem_erase_iff Std.ExtTreeMap.nodup_keys).1 hkey
      obtain ⟨first, hfirst, hreach⟩ := hleaves.around key (Std.ExtTreeMap.mem_keys.1 hin) hne
      exact Std.ExtTreeSet.mem_toList.2 ((hreached first hfirst key hreach).resolve_right hne)
    have hlength := (List.subperm_of_subset (Std.ExtTreeMap.nodup_keys.erase _) hsub).length_le
    rw [List.length_erase_of_mem (Std.ExtTreeMap.mem_keys.2 hentry), Std.ExtTreeMap.length_keys,
      Std.ExtTreeSet.length_toList] at hlength
    omega

/-- **The walk at level 0 visits all entries but the entry point** just when it has room for them
and no more, and the entry point is left out. -/
theorem levelZero_misses_iff {graph : HnswFieldGraph} {entryPoint : String}
    (hentry : entryPoint ∈ fieldEntriesByKey entries field) {ef : ℕ} (hef : 1 ≤ ef) :
    entryPoint ∉ levelZeroVisited ops graph (fieldEntriesByKey entries field) query entryPoint ef ∧
        (∀ key ∈ fieldEntriesByKey entries field, key ≠ entryPoint →
          key ∈ levelZeroVisited ops graph (fieldEntriesByKey entries field) query entryPoint ef) ↔
      (fieldEntriesByKey entries field).size = ef + 1 ∧
        LeavesOut ops graph (fieldEntriesByKey entries field) query entryPoint := by
  have hsub : ∀ key ∈ levelZeroVisited ops graph (fieldEntriesByKey entries field) query
      entryPoint ef, key ∈ fieldEntriesByKey entries field := fun key => layerVisited_subset
  -- A walk that has not met its start has used up its room.
  have hfull : entryPoint ∉ levelZeroVisited ops graph
      (fieldEntriesByKey entries field) query entryPoint ef →
      (levelZeroVisited ops graph (fieldEntriesByKey entries field) query entryPoint ef).size =
        max (min (max ef 1) (fieldEntriesByKey entries field).size) 1 := by
    intro hout
    refine le_antisymm (size_layerVisited_le _ _ _) (not_lt.1 fun hends => hout ?_)
    exact mem_layerVisited List.mem_cons_self hentry hends
  constructor
  · rintro ⟨hout, hall⟩
    have hmissed := (misses_one_iff hsub hentry hout).1 hall
    have hsize := hfull hout
    refine ⟨by omega, leavesOut_of_misses hcmp hentry hout hall⟩
  · rintro ⟨hsize, hleaves⟩
    have hout := misses_of_leavesOut hcmp hentry hef hsize hleaves
    have hvisited := hfull hout
    exact ⟨hout, (misses_one_iff hsub hentry hout).2 (by omega)⟩

end Order

/-! ### What a search promises -/

/-- The scores of the allowed entries of a field that can be compared with a query. -/
def allowedScores (ops : F32 S) (entries : List (VectorIndexEntry S)) (field : String)
    (query : List S) (allowed : Option (List (String × ℕ))) : List (VectorScore S) :=
  ((entries.filter fun entry => entry.field = field).filterMap fun entry =>
    vectorScoreForEntry ops entry query).filter (scoreAllowedBy allowed)

/-- An answer from all scores that are allowed: some of them, without repeats and in order, no more
than were asked for, and all of them where they are no more. -/
structure SmallAnswer (ops : F32 S) (all : List (VectorScore S)) (limit : ℕ)
    (scores : List (VectorScore S)) :
    Prop where
  limited : scores.length ≤ limit
  distinct : (scores.map fun score => (score.recordId, score.versionId)).Nodup
  sorted : scores.Pairwise fun a b => (vectorScoreOrder ops a b).isLE = true
  own : ∀ score ∈ scores, score ∈ all
  complete : all.length ≤ limit → ∀ score ∈ all, score ∈ scores

theorem SmallAnswer.of_perm {all all' : List (VectorScore S)} {scores : List (VectorScore S)}
    (hperm : all.Perm all') (h : SmallAnswer ops all limit scores) :
      SmallAnswer ops all' limit scores where
  limited := h.limited
  distinct := h.distinct
  sorted := h.sorted
  own score hscore := hperm.mem_iff.1 (h.own score hscore)
  complete hsmall score hscore :=
    h.complete (hperm.length_eq ▸ hsmall) score (hperm.mem_iff.2 hscore)

/-- No two entries have the same field, record id and version. -/
def DistinctEntries (entries : List (VectorIndexEntry S)) : Prop :=
  (entries.map fun entry => (entry.field, entry.recordId, entry.versionId)).Nodup

theorem lastEntry_iff (h : DistinctEntries entries) {recordId : String} {versionId : ℕ}
    {entry : VectorIndexEntry S} :
    lastEntry entries field recordId versionId = some entry ↔
      entry ∈ entries ∧ entry.field = field ∧ entry.recordId = recordId ∧
      entry.versionId = versionId := by
  refine ⟨lastEntry_spec, ?_⟩
  rintro ⟨hmem, hfield, hid, hversion⟩
  cases hlast : lastEntry entries field recordId versionId with
  | none =>
    have hnone := List.findLast?_eq_none.1 hlast entry hmem
    simp [hfield, hid, hversion] at hnone
  | some other =>
    obtain ⟨hmem', hfield', hid', hversion'⟩ := lastEntry_spec hlast
    refine congrArg some (List.inj_on_of_nodup_map h hmem' hmem ?_)
    rw [hfield', hid', hversion', hfield, hid, hversion]

theorem mem_allowedScores (h : DistinctEntries entries) {allowed : List (String × ℕ)}
    {score : VectorScore S} :
    score ∈ allowedScores ops entries field query (some allowed) ↔
      (score.recordId, score.versionId) ∈ allowed ∧ ScoresEntry ops entries field query score := by
  simp only [allowedScores, List.mem_filter, List.mem_filterMap, decide_eq_true_eq, scoreAllowedBy,
    Option.all_some, scoreAllowed, ScoresEntry, lastEntry_iff h, vectorScoreForEntry,
    Option.map_eq_some_iff]
  rw [and_comm]
  refine and_congr_right fun _ => ⟨?_, ?_⟩
  · rintro ⟨entry, ⟨hmem, hfield⟩, value, hvalue, rfl⟩
    exact ⟨entry, ⟨hmem, hfield, rfl, rfl⟩, hvalue⟩
  · rintro ⟨entry, ⟨hmem, hfield, hid, hversion⟩, hvalue⟩
    exact ⟨entry, ⟨hmem, hfield⟩, score.score, hvalue, by rw [hid, hversion]⟩

/-- The scores without a filter are those with all entries allowed. -/
theorem allowedScores_none (h : DistinctEntries entries) :
    allowedScores ops entries field query none =
      allowedScores ops entries field query
        (some (entryPairs (fieldEntriesByKey entries field))) := by
  rw [allowedScores, allowedScores, filter_scoreAllowedBy]
  intro score hscore
  obtain ⟨entry, hentry, hsome⟩ := List.mem_filterMap.1 hscore
  obtain ⟨hmem, hfield⟩ := List.mem_filter.1 hentry
  have hfield : entry.field = field := of_decide_eq_true hfield
  have hlast := (lastEntry_iff h).2 ⟨hmem, hfield, rfl, rfl⟩
  rw [← getElem?_fieldEntriesByKey hfield] at hlast
  exact mem_entryPairs_of_score hlast hsome

/-- **An answer is small as it should be** just when nothing is missing that there is room for. -/
theorem smallAnswer_iff [LinearOrder S] (hcmp : ∀ a b : S, ops.partialCmp a b = some (compare a b))
    {all found : List (VectorScore S)}
    (hnodup : (found.map fun score => (score.recordId, score.versionId)).Nodup)
    (hsub : ∀ score ∈ found, score ∈ all) :
    SmallAnswer ops all limit ((sortBy (vectorScoreOrder ops) found).take limit) ↔
      (all.length ≤ limit → ∀ score ∈ all, score ∈ found) := by
  have hperm := sortBy_perm (vectorScoreOrder ops) found
  have htrans := transCmp_vectorScoreOrder hcmp
  have hall : all.length ≤ limit → (sortBy (vectorScoreOrder ops) found).take limit =
      sortBy (vectorScoreOrder ops) found := by
    intro hsmall
    have hlength := (List.subperm_of_subset hnodup.of_map hsub).length_le
    exact List.take_of_length_le (hperm.length_eq.trans_le (hlength.trans hsmall))
  constructor
  · intro h hsmall score hscore
    have hmem := h.complete hsmall score hscore
    exact hperm.mem_iff.1 (List.mem_of_mem_take hmem)
  · intro h
    refine ⟨List.length_take_le _ _, ?_, ?_, ?_, ?_⟩
    · exact ((hperm.map _).nodup_iff.2 hnodup).sublist ((List.take_sublist _ _).map _)
    · exact (pairwise_sortBy found).sublist (List.take_sublist _ _)
    · exact fun score hscore => hsub score (hperm.mem_iff.1 (List.mem_of_mem_take hscore))
    · intro hsmall score hscore
      rw [hall hsmall]
      exact hperm.mem_iff.2 (h hsmall score hscore)

/-! ### The entry point overlooked -/

/-- A search overlooks an entry: it is the entry point of a graph with levels above 0, the walk at
level 0 has room for all entries but one, and it leaves out the entry point. -/
structure Overlooks (ops : F32 S) (artifact : VectorIndexArtifact S) (field : String)
    (query : List S) (limit : ℕ) (entry : VectorIndexEntry S) : Prop where
  stored : (fieldEntriesByKey artifact.entries field)[vectorEntryKey entry]? = some entry
  room : (fieldEntriesByKey artifact.entries field).size = max artifact.efSearch
    (min (limit * 4) usizeMax) + 1
  leftOut : ∃ graph, artifact.hnsw[field]? = some graph ∧
    graph.entryPoint = some (vectorEntryKey entry) ∧
    0 < graph.maxLevel ∧
      LeavesOut ops graph (fieldEntriesByKey artifact.entries field) query (vectorEntryKey entry)

theorem searchWidth_eq_iff {artifact : VectorIndexArtifact S}
    (hef : defaultHnswEfSearch ≤ artifact.efSearch) (limit allowedCount fieldEntryCount : ℕ) :
    fieldEntryCount = artifact.searchWidth limit allowedCount fieldEntryCount + 1 ↔
      fieldEntryCount = max artifact.efSearch (min (limit * 4) usizeMax) + 1 := by
  rw [VectorIndexArtifact.searchWidth]
  rw [defaultHnswEfSearch] at hef ⊢
  omega

/-- A search from the entry point of a graph. -/
theorem searchHnsw_of_graph {artifact : VectorIndexArtifact S} {entries : EntryMap S}
    {graph : HnswFieldGraph} {entryPoint : String} {allowed : List (String × ℕ)}
    (hgraph : artifact.hnsw[field]? = some graph) (hpoint : graph.entryPoint = some entryPoint)
    (hentry : entryPoint ∈ entries) :
    (artifact.searchHnsw ops field query limit allowed entries).scores =
      let walk := walkLevelZero ops graph entries query entryPoint
        (artifact.searchWidth limit allowed.dedup.length entries.size)
      let scores := walkScores ops walk.1 entries query limit allowed
      if scores.length < limit ∧ scores.length < allowed.dedup.length ∧
        walk.2.size < entries.size then
        (exactVectorSearch ops entries query limit allowed).scores
      else scores := by
  rw [VectorIndexArtifact.searchHnsw]
  simp only [hgraph, hpoint, Std.ExtTreeMap.mem_iff_contains.1 hentry, if_true]
  split_ifs <;> rfl

theorem mem_of_mem_walkScores {entries : EntryMap S} {found : List String}
    {allowed : List (String × ℕ)} {score : VectorScore S}
    (h : score ∈ walkScores ops found entries query limit allowed) :
    score ∈ vectorScoresForKeys ops found entries query allowed :=
  (sortBy_perm _ _).mem_iff.1 (List.mem_of_mem_take h)

/-- Where an answer misses a score that there is room for, it has fewer scores than were asked for,
and fewer than are allowed. -/
theorem length_lt_of_missing (hdistinct : DistinctEntries entries) {allowed : List (String × ℕ)}
    {score : VectorScore S} {found : List String} (hfound : found.Nodup)
    (hsmall : (allowedScores ops entries field query (some allowed)).length ≤ limit)
    (hscore : score ∈ allowedScores ops entries field query (some allowed))
    (hmissing : score ∉ vectorScoresForKeys ops found
      (fieldEntriesByKey entries field) query allowed) :
    (vectorScoresForKeys ops found (fieldEntriesByKey entries field) query allowed).length < limit ∧
      (vectorScoresForKeys ops found (fieldEntriesByKey entries field) query allowed).length <
        allowed.dedup.length := by
  set scores := vectorScoresForKeys ops found (fieldEntriesByKey entries field)
    query allowed with hscores
  have hnodup : (scores.map fun score => (score.recordId, score.versionId)).Nodup :=
    nodup_vectorScoresForKeys hfound
  have hown : ∀ other ∈ scores, (other.recordId, other.versionId) ∈ allowed ∧
      ScoresEntry ops entries field query other := by
    intro other hother
    obtain ⟨hallowed, key, -, entry, hentry, hvalue⟩ := mem_vectorScoresForKeys.1 hother
    exact ⟨hallowed, (scoresEntry_of_getElem? hentry hvalue).1⟩
  obtain ⟨hallowed, hvalue⟩ := (mem_allowedScores hdistinct).1 hscore
  -- With the missing score there is one score more for the allowed pairs.
  have hmore : ((score :: scores).map fun score => (score.recordId, score.versionId)).Nodup := by
    refine List.nodup_cons.2 ⟨fun hmem => ?_, hnodup⟩
    obtain ⟨other, hother, hsame⟩ := List.mem_map.1 hmem
    obtain ⟨hid, hversion⟩ := Prod.mk.inj hsame
    exact hmissing ((hown other hother).2.eq hvalue hid hversion ▸ hother)
  constructor
  · have hlength := (List.subperm_of_subset hmore.of_map
      (List.cons_subset.2 ⟨hscore, fun other hother =>
      (mem_allowedScores hdistinct).2 (hown other hother)⟩)).length_le
    exact Nat.lt_of_succ_le (hlength.trans hsmall)
  · have hpairs : ((score :: scores).map fun score => (score.recordId, score.versionId)) ⊆
        allowed.dedup := by
      intro pair hpair
      obtain ⟨other, hother, rfl⟩ := List.mem_map.1 hpair
      rcases List.mem_cons.1 hother with rfl | hother
      · exact List.mem_dedup.2 hallowed
      · exact List.mem_dedup.2 (hown other hother).1
    have hlength := (List.subperm_of_subset hmore hpairs).length_le
    rwa [List.length_map] at hlength

theorem length_walkScores_le {entries : EntryMap S} {found : List String}
    {allowed : List (String × ℕ)} :
    (walkScores ops found entries query limit allowed).length ≤
      (vectorScoresForKeys ops found entries query allowed).length :=
  (List.length_take_le' _ _).trans (sortBy_perm _ _).length_eq.le

section Search

variable [LinearOrder S] (hcmp : ∀ a b : S, ops.partialCmp a b = some (compare a b))
  {artifact : VectorIndexArtifact S} {allowed : List (String × ℕ)} {score : VectorScore S}

include hcmp

/-- An entry that is overlooked is not in the answer. -/
theorem not_mem_of_overlooks (hef : defaultHnswEfSearch ≤ artifact.efSearch)
    {entry : VectorIndexEntry S} (h : Overlooks ops artifact field query limit entry)
    (hscore : vectorScoreForEntry ops entry query = some score) :
    score ∉ (artifact.search ops field query limit allowed).1 := by
  obtain ⟨graph, hgraph, hpoint, habove, hleaves⟩ := h.leftOut
  have hentry : vectorEntryKey entry ∈ fieldEntriesByKey artifact.entries field := by
    rw [Std.ExtTreeMap.mem_iff_isSome_getElem?, h.stored]
    rfl
  set ef := artifact.searchWidth limit allowed.dedup.length
    (fieldEntriesByKey artifact.entries field).size
    with hwidth
  have hroom := (searchWidth_eq_iff hef limit allowed.dedup.length _).2 h.room
  rw [← hwidth] at hroom
  have hpos : 1 ≤ ef := le_max_right _ _
  obtain ⟨hout, hothers⟩ := (levelZero_misses_iff hcmp hentry hpos).2 ⟨hroom, hleaves⟩
  obtain ⟨hfound, hseen⟩ := @walkLevelZero_eq _ ops query _ graph _ hentry ef
  -- The entry point counts as visited, so all entries do, and nothing is searched again.
  have hall : ¬ (walkLevelZero ops graph (fieldEntriesByKey artifact.entries field)
      query (vectorEntryKey entry) ef).2.size < (fieldEntriesByKey
        artifact.entries field).size := by
    rw [not_lt, ← Std.ExtTreeMap.length_keys, ← Std.ExtTreeSet.length_toList]
    refine (List.subperm_of_subset Std.ExtTreeMap.nodup_keys fun key hkey => ?_).length_le
    rw [Std.ExtTreeSet.mem_toList, hseen]
    by_cases hkey' : key = vectorEntryKey entry
    · exact .inr ⟨habove, hkey'⟩
    · exact .inl (hothers key (Std.ExtTreeMap.mem_keys.1 hkey) hkey')
  rw [search_eq]
  split_ifs with hnothing
  · exact List.not_mem_nil
  · rw [searchHnsw_of_graph hgraph hpoint hentry, ← hwidth, if_neg fun hfew => hall hfew.2.2]
    intro hmem
    obtain ⟨-, key, hkey, entry', hentry', hscore'⟩ :=
      mem_vectorScoresForKeys.1 (mem_of_mem_walkScores hmem)
    rw [hfound.mem_iff, Std.ExtTreeSet.mem_toList] at hkey
    obtain ⟨-, -, hid, hversion⟩ := scoresEntry_of_getElem? h.stored hscore
    obtain ⟨-, rfl, hid', hversion'⟩ := scoresEntry_of_getElem? hentry' hscore'
    have hsame : vectorEntryKey entry' = vectorEntryKey entry := by
      have hfield := (lastEntry_spec (lastEntry_of_getElem? h.stored).2).2.1
      have hfield' := (lastEntry_spec (lastEntry_of_getElem? hentry').2).2.1
      rw [vectorEntryKey, vectorEntryKey, hfield, hfield', hid, hid', hversion, hversion']
    rw [hsame] at hkey
    exact hout hkey

/-- An entry that is missing from an answer with room for it was overlooked. -/
theorem overlooks_of_missing (hdistinct : DistinctEntries artifact.entries)
    (hef : defaultHnswEfSearch ≤ artifact.efSearch) {graph : HnswFieldGraph} {entryPoint : String}
    (hgraph : artifact.hnsw[field]? = some graph) (hpoint : graph.entryPoint = some entryPoint)
    (hentry : entryPoint ∈ fieldEntriesByKey artifact.entries field) {found : List String}
    {visited : Std.ExtTreeSet String compare}
    (hwalk : walkLevelZero ops graph (fieldEntriesByKey artifact.entries field) query entryPoint
      (artifact.searchWidth limit allowed.dedup.length
        (fieldEntriesByKey artifact.entries field).size) =
        (found, visited))
    (hseen : (fieldEntriesByKey artifact.entries field).size ≤ visited.size)
    (hscore : score ∈ allowedScores ops artifact.entries field query (some allowed))
    (hmissing : score ∉ vectorScoresForKeys ops found
      (fieldEntriesByKey artifact.entries field) query allowed) :
    ∃ entry, Overlooks ops artifact field query limit entry ∧
    vectorScoreForEntry ops entry query = some score := by
  obtain ⟨hallowed, entry, hlast, hvalue⟩ := (mem_allowedScores hdistinct).1 hscore
  obtain ⟨-, hfield, hid, hversion⟩ := lastEntry_spec hlast
  have hstored : (fieldEntriesByKey artifact.entries field)[vectorEntryKey entry]? =
      some entry := by
    rw [getElem?_fieldEntriesByKey hfield, hid, hversion]
    exact hlast
  have hmem : vectorEntryKey entry ∈ fieldEntriesByKey artifact.entries field := by
    rw [Std.ExtTreeMap.mem_iff_isSome_getElem?, hstored]
    rfl
  have hown : vectorScoreForEntry ops entry query = some score := by
    rw [vectorScoreForEntry, hvalue, hid, hversion]
    rfl
  set ef := artifact.searchWidth limit allowed.dedup.length
    (fieldEntriesByKey artifact.entries field).size
    with hwidth
  have hpos : 1 ≤ ef := le_max_right _ _
  obtain ⟨hfound, hvisited⟩ := @walkLevelZero_eq _ ops query _ graph _ hentry ef
  rw [hwalk] at hfound hvisited
  have hout : vectorEntryKey entry ∉
      levelZeroVisited ops graph
        (fieldEntriesByKey artifact.entries field) query entryPoint ef := by
    intro hkey
    refine hmissing (mem_vectorScoresForKeys.2 ⟨hallowed, _, ?_, entry, hstored, hown⟩)
    exact hfound.mem_iff.2 (Std.ExtTreeSet.mem_toList.2 hkey)
  have hall : ∀ key ∈ fieldEntriesByKey artifact.entries field, key ∈ visited := by
    refine fun key => mem_of_size_le (fun key hkey => ?_) hseen
    rcases (hvisited key).1 hkey with hkey | ⟨-, rfl⟩
    · exact layerVisited_subset hkey
    · exact hentry
  obtain ⟨habove, hsame⟩ := ((hvisited _).1 (hall _ hmem)).resolve_left hout
  rw [← hsame] at hout hpoint hvisited hentry
  obtain ⟨hroom, hleaves⟩ := (levelZero_misses_iff hcmp hentry hpos).1
    ⟨hout, fun key hkey hne => ((hvisited key).1 (hall key hkey)).resolve_right fun h => hne h.2⟩
  refine ⟨entry, ⟨hstored, ?_, graph, hgraph, hpoint, habove, hleaves⟩, hown⟩
  exact (searchWidth_eq_iff hef limit allowed.dedup.length _).1 hroom

/-- The scores of all entries answer a search. -/
theorem smallAnswer_exact (hdistinct : DistinctEntries artifact.entries) :
    SmallAnswer ops (allowedScores ops artifact.entries field query (some allowed)) limit
      (exactVectorSearch ops (fieldEntriesByKey artifact.entries field)
        query limit allowed).scores := by
  refine (smallAnswer_iff hcmp ?_ fun score hscore => ?_).2 fun _ score hscore => ?_
  · rw [exactScoresForEntries, ← filterMap_keys fun entry => vectorScoreForEntry ops entry query]
    exact nodup_vectorScoresForKeys Std.ExtTreeMap.nodup_keys
  · exact (mem_allowedScores hdistinct).2 (mem_exactScoresForEntries.1 hscore)
  · exact mem_exactScoresForEntries.2 ((mem_allowedScores hdistinct).1 hscore)

/-- A search with a filter answers as it should unless it overlooks the entry of an allowed
score. -/
theorem smallAnswer_search_iff (hdistinct : DistinctEntries artifact.entries)
    (hef : defaultHnswEfSearch ≤ artifact.efSearch) :
    SmallAnswer ops (allowedScores ops artifact.entries field query (some allowed)) limit
        (artifact.search ops field query limit allowed).1 ↔
      ¬ ((allowedScores ops artifact.entries field query (some allowed)).length ≤ limit ∧
        ∃ entry, Overlooks ops artifact field query limit entry ∧
          ∃ score ∈ allowedScores ops artifact.entries field query (some allowed),
            vectorScoreForEntry ops entry query = some score) := by
  constructor
  · rintro hanswer ⟨hsmall, entry, hoverlooks, score, hscore, hvalue⟩
    exact not_mem_of_overlooks hcmp hef hoverlooks hvalue (hanswer.complete hsmall score hscore)
  · intro hnone
    rw [search_eq]
    split_ifs with hnothing
    · have hempty : SmallAnswer ops
          (allowedScores ops artifact.entries field query (some allowed)) limit
          ((sortBy (vectorScoreOrder ops) []).take limit) := by
        refine (@smallAnswer_iff _ ops limit _ hcmp _ [] List.nodup_nil fun _ h =>
          absurd h List.not_mem_nil).2
          fun hsmall score hscore => ?_
        rcases hnothing with rfl | hnothing
        · rw [List.length_eq_zero_iff.1 (Nat.le_zero.1 hsmall)] at hscore
          exact hscore
        · -- A score that is allowed has an entry in the field.
          obtain ⟨-, entry, hlast, -⟩ := (mem_allowedScores hdistinct).1 hscore
          obtain ⟨-, hfield, hid, hversion⟩ := lastEntry_spec hlast
          rw [← hid, ← hversion, ← getElem?_fieldEntriesByKey hfield,
            Std.ExtTreeMap.isEmpty_iff.1 hnothing, Std.ExtTreeMap.getElem?_empty] at hlast
          cases hlast
      rwa [sortBy, List.mergeSort_nil, List.take_nil] at hempty
    · rcases searchHnsw_cases artifact field query limit allowed
        (fieldEntriesByKey artifact.entries field) with hexact | ⟨graph, entryPoint, hgraph, hpoint,
          hentry, hfew, hscores⟩
      · rw [hexact]
        exact smallAnswer_exact hcmp hdistinct
      · obtain ⟨hfound, -⟩ := @walkLevelZero_eq _ ops query _ graph _ hentry
          (artifact.searchWidth limit allowed.dedup.length
            (fieldEntriesByKey artifact.entries field).size)
        have hnodup := hfound.nodup_iff.2 nodup_toList
        rw [hscores, walkScores]
        refine (smallAnswer_iff hcmp (nodup_vectorScoresForKeys hnodup) fun score hscore => ?_).2
          fun hsmall score hscore => ?_
        · obtain ⟨hallowed, key, -, entry, hentry', hvalue⟩ := mem_vectorScoresForKeys.1 hscore
          exact (mem_allowedScores hdistinct).2
            ⟨hallowed, (scoresEntry_of_getElem? hentry' hvalue).1⟩
        · by_contra hmissing
          obtain ⟨hlimit, hcount⟩ := length_lt_of_missing hdistinct hnodup hsmall hscore hmissing
          -- Too few scores are no reason to search again only where everything counts as visited.
          have hseen := not_lt.1 fun hvisited => hfew
            ⟨length_walkScores_le.trans_lt hlimit, length_walkScores_le.trans_lt hcount, hvisited⟩
          obtain ⟨entry, hoverlooks, hvalue⟩ :=
            overlooks_of_missing hcmp hdistinct hef hgraph hpoint hentry rfl
            hseen hscore hmissing
          exact hnone ⟨hsmall, entry, hoverlooks, score, hscore, hvalue⟩

end Search

/-- **A search answers as it should**, with or without a filter, unless it overlooks the entry of a
score that is allowed and that there is room for. -/
theorem small_answers_iff [LinearOrder S] (ops : F32 S)
    (hcmp : ∀ a b : S, ops.partialCmp a b = some (compare a b)) (segmentId : String)
    (generation manifestGeneration : ℕ) (checksum : Digest) (records : List (IndexRecord S))
    (hdistinct : DistinctEntries (records.flatMap IndexRecord.vectorEntries)) (field : String)
    (query : List S) (limit : ℕ) (allowed : Option (List (String × ℕ))) :
    let index := buildVectorIndex ops segmentId generation manifestGeneration checksum records
    let all := allowedScores ops (records.flatMap IndexRecord.vectorEntries) field query allowed
    SmallAnswer ops all limit (index.searchBy ops field query limit allowed).scores ↔
      ¬ (all.length ≤ limit ∧ ∃ entry, Overlooks ops index field query limit entry ∧
        ∃ score ∈ all, vectorScoreForEntry ops entry query = some score) := by
  intro index all
  have hperm : index.entries.Perm (records.flatMap IndexRecord.vectorEntries) := sortBy_perm _ _
  have hindex : DistinctEntries index.entries := (hperm.map _).nodup_iff.2 hdistinct
  have hall : (allowedScores ops index.entries field query allowed).Perm all :=
    ((hperm.filter _).filterMap _).filter _
  rw [show SmallAnswer ops all limit (index.searchBy ops field query limit allowed).scores ↔
      SmallAnswer ops (allowedScores ops index.entries field query allowed) limit
        (index.searchBy ops field query limit allowed).scores from
    ⟨fun h => h.of_perm hall.symm, fun h => h.of_perm hall⟩]
  simp only [← hall.length_eq, ← hall.mem_iff]
  cases allowed with
  | some allowed => exact smallAnswer_search_iff hcmp hindex le_rfl
  | none =>
    rw [search_by_none, allowedScores_none hindex]
    exact smallAnswer_search_iff hcmp hindex le_rfl

/-- The search among one document. -/
theorem small_answers_one :
    SmallAnswer .rational
      (allowedScores .rational ([vectorDoc "t" 1].flatMap IndexRecord.vectorEntries) "embedding"
        [1] none) 1
      ((buildVectorIndex .rational "s1" 1 2 Digest.zero [vectorDoc "t" 1]).searchBy
        .rational "embedding" [1] 1
        none).scores := by
  refine (small_answers_iff .rational F32.rational_partialCmp "s1" 1 2 Digest.zero [vectorDoc "t" 1]
    (List.nodup_singleton _) "embedding" [1] 1 none).2 ?_
  rintro ⟨-, entry, hoverlooks, -⟩
  -- One entry is less than a walk has room for.
  have hroom := hoverlooks.room
  have hsize := (SortedMap.size_indexBy_le vectorEntryKey
    ((buildVectorIndex .rational "s1" 1 2 Digest.zero
    [vectorDoc "t" 1]).entries.filter fun entry => entry.field = "embedding")).trans
      ((List.length_filter_le _ _).trans (sortBy_perm entryOrder _).length_eq.le)
  have hwidth : (buildVectorIndex .rational "s1" 1 2 Digest.zero [vectorDoc "t" 1]).efSearch = 64 :=
    rfl
  have hone : ([vectorDoc "t" 1].flatMap IndexRecord.vectorEntries).length = 1 := rfl
  rw [fieldEntriesByKey, hwidth] at hroom
  omega

end TraceDB
