import Mathlib.Data.List.Forall2
import Mathlib.Data.List.Induction
import Mathlib.Data.String.Basic
import Mathlib.Order.Compare
import TraceDB.Data.Last

/-!
# Sorted maps with string keys

Facts about `Std.ExtTreeMap String α compare` used as an ordered index:

* `overlay_getElem?` : writing the entries of one map over another;
* `takeWhile_prefix_range` : the entries whose key has a given prefix are a range, so that walking
  up from the prefix and stopping at the first other key finds exactly them;
* `toList_map_congr` : two maps with the same keys, related entry by entry, list related entries in
  the same order;
* `getElem?_indexBy` : a list collected under keys, where the last element of a key counts.
-/

namespace TraceDB.SortedMap

variable {α β γ : Type}

/-- The entries of `d` written over `t`. -/
def overlay (t d : Std.ExtTreeMap String α compare) : Std.ExtTreeMap String α compare :=
  t.insertMany d.toList

theorem overlay_getElem? (t d : Std.ExtTreeMap String α compare) (k : String) :
    (overlay t d)[k]? = d[k]?.or t[k]? := by
  cases hk : d[k]? with
  | none =>
    have hnot : (d.toList.map Prod.fst).contains k = false := by
      simpa using hk
    rw [overlay, Std.ExtTreeMap.getElem?_insertMany_list_of_contains_eq_false hnot]
    rfl
  | some a =>
    rw [overlay, Std.ExtTreeMap.getElem?_insertMany_list_of_mem Std.ReflCmp.compare_self
      Std.ExtTreeMap.distinct_keys_toList
      (Std.ExtTreeMap.mem_toList_iff_getElem?_eq_some.2 hk)]
    rfl

@[simp] theorem overlay_empty (t : Std.ExtTreeMap String α compare) : overlay t ∅ = t := by
  refine Std.ExtTreeMap.ext_getElem? fun k => ?_
  simp [overlay_getElem?]

theorem overlay_insert (t d : Std.ExtTreeMap String α compare) (k : String) (a : α) :
    overlay t (d.insert k a) = (overlay t d).insert k a := by
  refine Std.ExtTreeMap.ext_getElem? fun k' => ?_
  simp only [overlay_getElem?, Std.ExtTreeMap.getElem?_insert]
  split_ifs <;> simp

theorem isSome_insert (t : Std.ExtTreeMap String α compare) (k k' : String) (a : α) :
    ((t.insert k a)[k']?).isSome = true ↔ (t[k']?).isSome = true ∨ k' = k := by
  rw [Std.ExtTreeMap.getElem?_insert]
  by_cases h : k' = k
  · simp [h]
  · rw [if_neg (by simpa using Ne.symm h)]
    simp [h]

/-- The entries of a list, written one after the other. -/
def ofEntries (entries : List (String × α)) : Std.ExtTreeMap String α compare :=
  entries.foldl (fun t e => t.insert e.1 e.2) ∅

theorem ofEntries_concat (entries : List (String × α)) (k : String) (a : α) :
    ofEntries (entries ++ [(k, a)]) = (ofEntries entries).insert k a := by
  rw [ofEntries, List.foldl_append]
  rfl

/-- Entries under distinct keys are all there. -/
theorem getElem?_ofEntries_iff {entries : List (String × α)} (h : (entries.map Prod.fst).Nodup)
    {k : String} {a : α} : (ofEntries entries)[k]? = some a ↔ (k, a) ∈ entries := by
  induction entries using List.reverseRecOn with
  | nil => simp [ofEntries]
  | append_singleton entries e ih =>
    obtain ⟨k', a'⟩ := e
    rw [List.map_append, List.map_singleton, List.nodup_append] at h
    obtain ⟨hnodup, -, hfree⟩ := h
    rw [ofEntries_concat, Std.ExtTreeMap.getElem?_insert, List.mem_append, List.mem_singleton]
    by_cases hk : k = k'
    · subst hk
      have hnot : (k, a) ∉ entries := fun hmem =>
        hfree k (List.mem_map_of_mem hmem) k List.mem_cons_self rfl
      simp [hnot, eq_comm]
    · rw [if_neg (by simpa using Ne.symm hk), ih hnodup]
      simp [hk]

theorem getElem?_ofEntries_eq_none {entries : List (String × α)} (h : (entries.map Prod.fst).Nodup)
    {k : String} (hk : k ∉ entries.map Prod.fst) : (ofEntries entries)[k]? = none := by
  by_contra hsome
  obtain ⟨a, ha⟩ := Option.ne_none_iff_exists'.1 hsome
  have hmem : (k, a) ∈ entries := (getElem?_ofEntries_iff h).1 ha
  exact hk (List.mem_map_of_mem (f := Prod.fst) hmem)

theorem nodup_of_perm_toList {t : Std.ExtTreeMap String α compare} {entries : List (String × α)}
    (h : entries.Perm t.toList) : (entries.map Prod.fst).Nodup := by
  have hkeys : (t.toList.map Prod.fst).Nodup := by
    rw [List.nodup_iff_pairwise_ne, List.pairwise_map]
    exact Std.ExtTreeMap.distinct_keys_toList.imp fun hne heq => hne (by simp [heq])
  exact (h.map Prod.fst).nodup_iff.2 hkeys

/-- A map is what its entries make up, in any order. -/
theorem ofEntries_eq_of_perm {t : Std.ExtTreeMap String α compare} {entries : List (String × α)}
    (h : entries.Perm t.toList) : ofEntries entries = t := by
  have hnodup := nodup_of_perm_toList h
  refine Std.ExtTreeMap.ext_getElem? fun k => ?_
  refine Option.ext fun a => ?_
  rw [getElem?_ofEntries_iff hnodup, h.mem_iff, Std.ExtTreeMap.mem_toList_iff_getElem?_eq_some]

/-! ### Collecting a list -/

/-- The elements of a list under their keys. -/
def indexBy (key : α → String) (xs : List α) : Std.ExtTreeMap String α compare :=
  xs.foldl (fun t x => t.insert (key x) x) ∅

theorem getElem?_indexBy (key : α → String) (xs : List α) (k : String) :
    (indexBy key xs)[k]? = xs.findLast? fun x => decide (key x = k) := by
  induction xs using List.reverseRecOn with
  | nil => simp [indexBy]
  | append_singleton xs x ih =>
    rw [indexBy, List.foldl_append, List.foldl_cons, List.foldl_nil, ← indexBy,
      Std.ExtTreeMap.getElem?_insert, List.findLast?_append_singleton, ih]
    simp only [compare_eq_iff_eq, decide_eq_true_eq]

theorem mem_indexBy {key : α → String} {xs : List α} {k : String} :
    k ∈ indexBy key xs ↔ ∃ x ∈ xs, key x = k := by
  rw [Std.ExtTreeMap.mem_iff_isSome_getElem?, getElem?_indexBy]
  cases hlast : xs.findLast? fun x => decide (key x = k) with
  | none =>
    refine iff_of_false Bool.false_ne_true ?_
    rintro ⟨x, hx, hkey⟩
    exact List.findLast?_eq_none.1 hlast x hx (decide_eq_true hkey)
  | some x =>
    have hkey : key x = k := by simpa using List.prop_of_findLast? hlast
    exact iff_of_true rfl ⟨x, List.mem_of_findLast? hlast, hkey⟩

theorem size_indexBy_le (key : α → String) (xs : List α) : (indexBy key xs).size ≤ xs.length := by
  induction xs using List.reverseRecOn with
  | nil => simp [indexBy]
  | append_singleton xs x ih =>
    rw [indexBy, List.foldl_append, List.foldl_cons, List.foldl_nil, ← indexBy,
      Std.ExtTreeMap.size_insert, List.length_append, List.length_singleton]
    split_ifs <;> omega

/-! ### Ranges of keys with a common prefix -/

theorem prefix_of_between {pre a k : List Char} (hk : pre <+: k) (hlow : ¬ a < pre)
    (hhigh : ¬ k < a) : pre <+: a := by
  induction pre generalizing a k with
  | nil => exact List.nil_prefix
  | cons c pre ih =>
    obtain ⟨rest, rfl⟩ := hk
    cases a with
    | nil => exact absurd (List.nil_lt_cons c pre) hlow
    | cons d a =>
      rw [List.cons_append, List.cons_lt_cons_iff, not_or] at hhigh
      rw [List.cons_lt_cons_iff, not_or] at hlow
      obtain rfl : c = d := le_antisymm (not_lt.1 hlow.1) (not_lt.1 hhigh.1)
      have hlow : ¬ a < pre := fun h => hlow.2 ⟨rfl, h⟩
      have hhigh : ¬ pre ++ rest < a := fun h => hhigh.2 ⟨rfl, h⟩
      exact (List.prefix_cons_inj _).2 (ih (List.prefix_append _ _) hlow hhigh)

/-- In an increasing list, walking up from `pre` and stopping at the first key without that prefix
finds all keys with it. -/
theorem takeWhile_prefix_range (pre : String) {entries : List (String × α)}
    (hsorted : entries.Pairwise fun a b => compare a.1 b.1 = .lt) :
    (entries.dropWhile fun e => decide (e.1 < pre)).takeWhile
        (fun e => pre.toList.isPrefixOf e.1.toList) =
      entries.filter fun e => pre.toList.isPrefixOf e.1.toList := by
  have hnot : ∀ k : String, k < pre → pre.toList.isPrefixOf k.toList = false := by
    intro k hk
    rw [Bool.eq_false_iff, ne_eq, List.isPrefixOf_iff_prefix]
    rintro ⟨rest, hrest⟩
    rw [String.lt_iff_toList_lt, ← hrest] at hk
    exact List.le_append_left hk
  induction entries with
  | nil => rfl
  | cons e entries ih =>
    obtain ⟨hfirst, hsorted⟩ := List.pairwise_cons.1 hsorted
    by_cases hlt : e.1 < pre
    · simp only [List.dropWhile_cons, hlt, decide_true, if_true, ih hsorted, List.filter_cons,
        hnot e.1 hlt, Bool.false_eq_true, if_false]
    · have hhere : (e :: entries).dropWhile (fun e => decide (e.1 < pre)) = e :: entries := by
        simp only [List.dropWhile_cons, hlt, decide_false, Bool.false_eq_true, if_false]
      rw [hhere]
      by_cases hpre : pre.toList.isPrefixOf e.1.toList = true
      · -- All later keys are above the prefix too, so nothing is dropped from them.
        have hdrop : entries.dropWhile (fun e => decide (e.1 < pre)) = entries := by
          cases entries with
          | nil => rfl
          | cons e₂ rest =>
            have hlt₂ : ¬ e₂.1 < pre :=
              not_lt.2 ((not_lt.1 hlt).trans (compare_lt_iff_lt.1 (hfirst _ List.mem_cons_self)).le)
            simp only [List.dropWhile_cons, hlt₂, decide_false, Bool.false_eq_true, if_false]
        have ih := ih hsorted
        rw [hdrop] at ih
        simp only [List.takeWhile_cons, List.filter_cons, hpre, if_true, ih]
      · have hnone : entries.filter (fun e => pre.toList.isPrefixOf e.1.toList) = [] := by
          refine List.filter_eq_nil_iff.2 fun e' he' hpre' => hpre (List.isPrefixOf_iff_prefix.2 ?_)
          have hlt' := compare_lt_iff_lt.1 (hfirst _ he')
          refine prefix_of_between (List.isPrefixOf_iff_prefix.1 hpre') ?_ ?_
          · exact fun h => hlt (String.lt_iff_toList_lt.2 h)
          · exact fun h => lt_asymm hlt' (String.lt_iff_toList_lt.2 h)
        simp only [List.takeWhile_cons, List.filter_cons, hpre, if_false, hnone,
          Bool.false_eq_true]

/-! ### Related maps -/

theorem mem_toList {t : Std.ExtTreeMap String α compare} {e : String × α} :
    e ∈ t.toList ↔ t[e.1]? = some e.2 :=
  Std.ExtTreeMap.mem_toList_iff_getElem?_eq_some

/-- Two maps that agree entry by entry after `f` and `g` list the same after them. -/
theorem toList_map_congr {t : Std.ExtTreeMap String α compare}
    {u : Std.ExtTreeMap String β compare} {f : α → γ} {g : β → γ}
    (h : ∀ k : String, t[k]?.map f = u[k]?.map g) :
    (t.toList.map fun e => (e.1, f e.2)) = u.toList.map fun e => (e.1, g e.2) := by
  have hnodup : ∀ {δ : Type} (v : Std.ExtTreeMap String δ compare) (f : δ → γ),
      (v.toList.map fun e => (e.1, f e.2)).Pairwise fun a b => a.1 < b.1 := by
    intro δ v f
    refine List.pairwise_map.2 (List.Pairwise.imp ?_ Std.ExtTreeMap.ordered_keys_toList)
    exact fun hlt => compare_lt_iff_lt.1 hlt
  refine List.Perm.eq_of_pairwise
    (fun (a b : String × γ) _ _ (hab : a.1 < b.1) (hba : b.1 < a.1) =>
      absurd (lt_trans hab hba) (lt_irrefl _)) (hnodup t f) (hnodup u g) ?_
  refine (List.perm_ext_iff_of_nodup ?_ ?_).2 ?_
  · exact (hnodup t f).imp fun hab heq => by rw [heq] at hab; exact lt_irrefl _ hab
  · exact (hnodup u g).imp fun hab heq => by rw [heq] at hab; exact lt_irrefl _ hab
  · rintro ⟨k, c⟩
    have hk := h k
    constructor
    · intro hmem
      obtain ⟨⟨k', a⟩, ha, heq⟩ := List.mem_map.1 hmem
      obtain ⟨rfl, rfl⟩ := Prod.mk.inj heq
      rw [mem_toList.1 ha, Option.map_some] at hk
      obtain ⟨b, hb, hbc⟩ := Option.map_eq_some_iff.1 hk.symm
      exact List.mem_map.2 ⟨(k', b), mem_toList.2 hb, by rw [hbc]⟩
    · intro hmem
      obtain ⟨⟨k', b⟩, hb, heq⟩ := List.mem_map.1 hmem
      obtain ⟨rfl, rfl⟩ := Prod.mk.inj heq
      rw [mem_toList.1 hb, Option.map_some] at hk
      obtain ⟨a, ha, hac⟩ := Option.map_eq_some_iff.1 hk
      exact List.mem_map.2 ⟨(k', a), mem_toList.2 ha, by rw [hac]⟩

/-- Two increasing lists of entries whose entries are related key by key are related entry by
entry. -/
theorem forall₂_of_sorted {R : α → β → Prop} {l : List (String × α)} {m : List (String × β)}
    (hl : l.Pairwise fun a b => a.1 < b.1) (hm : m.Pairwise fun a b => a.1 < b.1)
    (hleft : ∀ k a, (k, a) ∈ l → ∃ b, (k, b) ∈ m)
    (hright : ∀ k b, (k, b) ∈ m → ∃ a, (k, a) ∈ l)
    (hrel : ∀ k a b, (k, a) ∈ l → (k, b) ∈ m → R a b) :
    List.Forall₂ (fun a b => a.1 = b.1 ∧ R a.2 b.2) l m := by
  induction l generalizing m with
  | nil =>
    cases m with
    | nil => exact .nil
    | cons e m =>
      obtain ⟨a, ha⟩ := hright e.1 e.2 List.mem_cons_self
      cases ha
  | cons d l ih =>
    cases m with
    | nil =>
      obtain ⟨b, hb⟩ := hleft d.1 d.2 List.mem_cons_self
      cases hb
    | cons e m =>
      obtain ⟨hd, hl⟩ := List.pairwise_cons.1 hl
      obtain ⟨he, hm⟩ := List.pairwise_cons.1 hm
      -- The first keys are the same: each is the least of its list and occurs in the other.
      have hkey : d.1 = e.1 := by
        obtain ⟨b, hb⟩ := hleft d.1 d.2 List.mem_cons_self
        obtain ⟨a, ha⟩ := hright e.1 e.2 List.mem_cons_self
        rcases List.mem_cons.1 hb with hb | hb
        · exact congrArg Prod.fst hb
        · rcases List.mem_cons.1 ha with ha | ha
          · exact (congrArg Prod.fst ha).symm
          · exact absurd (lt_trans (he _ hb) (hd _ ha)) (lt_irrefl _)
      refine .cons ⟨hkey, hrel d.1 d.2 e.2 List.mem_cons_self ?_⟩ (ih hl hm ?_ ?_ ?_)
      · rw [hkey]
        exact List.mem_cons_self
      · intro k a ha
        obtain ⟨b, hb⟩ := hleft k a (List.mem_cons_of_mem _ ha)
        rcases List.mem_cons.1 hb with hb | hb
        · have hlt := hd _ ha
          rw [hkey, ← hb] at hlt
          exact absurd hlt (lt_irrefl _)
        · exact ⟨b, hb⟩
      · intro k b hb
        obtain ⟨a, ha⟩ := hright k b (List.mem_cons_of_mem _ hb)
        rcases List.mem_cons.1 ha with ha | ha
        · have hlt := he _ hb
          rw [← hkey, ← ha] at hlt
          exact absurd hlt (lt_irrefl _)
        · exact ⟨a, ha⟩
      · exact fun k a b ha hb => hrel k a b (List.mem_cons_of_mem _ ha) (List.mem_cons_of_mem _ hb)

/-! ### Selections -/

/-- The values that `f` selects from a map, with their keys. -/
def selected (t : Std.ExtTreeMap String α compare) (f : String → α → Option γ) :
    List (String × γ) :=
  t.toList.filterMap fun e => (f e.1 e.2).map fun c => (e.1, c)

theorem mem_selected {t : Std.ExtTreeMap String α compare} {f : String → α → Option γ} {k : String}
    {c : γ} : (k, c) ∈ selected t f ↔ t[k]?.bind (f k) = some c := by
  rw [selected, List.mem_filterMap, Option.bind_eq_some_iff]
  constructor
  · rintro ⟨⟨k', x⟩, hx, hsome⟩
    obtain ⟨c', hc, heq⟩ := Option.map_eq_some_iff.1 hsome
    obtain ⟨rfl, rfl⟩ := Prod.mk.inj heq
    exact ⟨x, mem_toList.1 hx, hc⟩
  · rintro ⟨x, hx, hc⟩
    exact ⟨(k, x), mem_toList.2 hx, by rw [hc]; rfl⟩

theorem sorted_selected (t : Std.ExtTreeMap String α compare) (f : String → α → Option γ) :
    (selected t f).Pairwise fun a b => a.1 < b.1 := by
  refine List.Pairwise.filterMap _ ?_ Std.ExtTreeMap.ordered_keys_toList
  rintro ⟨k, x⟩ ⟨k', x'⟩ hlt a ha b hb
  obtain ⟨-, -, rfl⟩ := Option.map_eq_some_iff.1 ha
  obtain ⟨-, -, rfl⟩ := Option.map_eq_some_iff.1 hb
  exact compare_lt_iff_lt.1 hlt

theorem filterMap_eq_selected (t : Std.ExtTreeMap String α compare) (f : String → α → Option γ) :
    (t.toList.filterMap fun e => f e.1 e.2) = (selected t f).map Prod.snd := by
  rw [selected, List.map_filterMap]
  refine List.filterMap_congr fun e _ => ?_
  cases f e.1 e.2 <;> rfl

/-- What is selected from two maps is related in order when it is related key by key. -/
theorem forall₂_filterMap {δ : Type} {t : Std.ExtTreeMap String α compare}
    {u : Std.ExtTreeMap String β compare} {f : String → α → Option γ} {g : String → β → Option δ}
    {R : String → γ → δ → Prop}
    (h : ∀ k : String, Option.Rel (R k) (t[k]?.bind (f k)) (u[k]?.bind (g k))) :
    List.Forall₂ (fun c d => ∃ k : String, t[k]?.bind (f k) = some c ∧ u[k]?.bind (g k) = some d ∧
        R k c d) (t.toList.filterMap fun e => f e.1 e.2)
        (u.toList.filterMap fun e => g e.1 e.2) := by
  rw [filterMap_eq_selected, filterMap_eq_selected, List.forall₂_map_left_iff,
    List.forall₂_map_right_iff]
  have hpairs := forall₂_of_sorted (R := fun c d => ∃ k : String, t[k]?.bind (f k) = some c ∧
    u[k]?.bind (g k) = some d ∧ R k c d) (sorted_selected t f) (sorted_selected u g) ?_ ?_ ?_
  · exact hpairs.imp fun _ _ hpair => hpair.2
  · intro k c hc
    have hk := h k
    rw [mem_selected.1 hc] at hk
    cases hd : u[k]?.bind (g k) with
    | none =>
      rw [hd] at hk
      cases hk
    | some d => exact ⟨d, mem_selected.2 hd⟩
  · intro k d hd
    have hk := h k
    rw [mem_selected.1 hd] at hk
    cases hc : t[k]?.bind (f k) with
    | none =>
      rw [hc] at hk
      cases hk
    | some c => exact ⟨c, mem_selected.2 hc⟩
  · intro k c d hc hd
    have hk := h k
    rw [mem_selected.1 hc, mem_selected.1 hd] at hk
    cases hk with
    | some hR => exact ⟨k, mem_selected.1 hc, mem_selected.1 hd, hR⟩

end TraceDB.SortedMap
