import Mathlib.Data.List.Induction
import Mathlib.Data.Nat.Basic
import Mathlib.Order.Compare
import Mathlib.Data.String.Basic

/-!
# Counting and grouping into sorted maps

* `tally` : how often each element of a list occurs (`*map.entry(x).or_default() += 1`);
* `group` : the values of a list of entries, key by key (`map.entry(k).or_default().push(v)`);
* `getElem?_foldl_update` : a map that is changed entry by entry folds the values of each key;
* `getElem?_foldl_insert_key` : a map into which values are put under different keys;
* `toList_eq_of_mem` : a sorted map lists any increasing list that has the same entries.
-/

namespace TraceDB

variable {κ β : Type} [LinearOrder κ]

/-- How often each element occurs. -/
def tally (xs : List κ) : Std.ExtTreeMap κ ℕ compare :=
  xs.foldl (fun counts x => counts.insert x (counts.getD x 0 + 1)) ∅

/-- The values of each key, in order. -/
def group (entries : List (κ × β)) : Std.ExtTreeMap κ (List β) compare :=
  entries.foldl (fun groups e => groups.insert e.1 (groups.getD e.1 [] ++ [e.2])) ∅

/-- The values of one key. -/
def valuesOf (entries : List (κ × β)) (k : κ) : List β :=
  entries.filterMap fun e => if e.1 = k then some e.2 else none

theorem valuesOf_flatMap {γ : Type} (xs : List γ) (f : γ → List (κ × β)) (k : κ) :
    valuesOf (xs.flatMap f) k = xs.flatMap fun x => valuesOf (f x) k := by
  rw [valuesOf, List.filterMap_flatMap]
  rfl

theorem getElem?_tally (xs : List κ) (k : κ) :
    (tally xs)[k]? = if k ∈ xs then some (xs.count k) else none := by
  induction xs using List.reverseRecOn with
  | nil => simp [tally]
  | append_singleton xs x ih =>
    have hstep : tally (xs ++ [x]) = (tally xs).insert x ((tally xs).getD x 0 + 1) := by
      simp [tally, List.foldl_append]
    rw [hstep, Std.ExtTreeMap.getElem?_insert]
    by_cases hx : x = k
    · subst hx
      rw [if_pos (compare_eq_iff_eq.2 rfl), if_pos (by simp), Std.ExtTreeMap.getD_eq_getD_getElem?,
        ih]
      by_cases hmem : x ∈ xs
      · simp [hmem]
      · simp [hmem, List.count_eq_zero_of_not_mem]
    · rw [if_neg (by simpa using hx), ih]
      simp [List.count_append, hx, Ne.symm hx]

theorem getElem?_group (entries : List (κ × β)) (k : κ) :
    (group entries)[k]? = if valuesOf entries k = [] then none else some (valuesOf entries k) := by
  induction entries using List.reverseRecOn with
  | nil => simp [group, valuesOf]
  | append_singleton entries e ih =>
    have hstep : group (entries ++ [e]) =
        (group entries).insert e.1 ((group entries).getD e.1 [] ++ [e.2]) := by
      simp [group, List.foldl_append]
    have hvalues : valuesOf (entries ++ [e]) k =
        valuesOf entries k ++ if e.1 = k then [e.2] else [] := by
      by_cases he : e.1 = k <;> simp [valuesOf, List.filterMap_append, he]
    rw [hstep, Std.ExtTreeMap.getElem?_insert, hvalues]
    by_cases he : e.1 = k
    · subst he
      rw [if_pos (compare_eq_iff_eq.2 rfl), if_pos rfl, if_neg (by simp),
        Std.ExtTreeMap.getD_eq_getD_getElem?, ih]
      split_ifs with hnil
      · simp [hnil]
      · rfl
    · rw [if_neg (by simpa using he), if_neg he, List.append_nil, ih]

/-- A map that is changed entry by entry (`step(map.entry(k).or_default(), v)`) folds the values of
each key. -/
theorem getElem?_foldl_update {γ : Type} (step : γ → β → γ) (b : γ)
    (entries : List (κ × β)) (k : κ) :
    (entries.foldl (fun (m : Std.ExtTreeMap κ γ compare) e => m.insert e.1
      (step (m.getD e.1 b) e.2)) ∅)[k]? =
      if valuesOf entries k = [] then none else some ((valuesOf entries k).foldl step b) := by
  induction entries using List.reverseRecOn with
  | nil => simp [valuesOf]
  | append_singleton entries e ih =>
    have hvalues : valuesOf (entries ++ [e]) k = valuesOf entries k ++
        if e.1 = k then [e.2] else [] := by
      by_cases he : e.1 = k <;> simp [valuesOf, List.filterMap_append, he]
    rw [List.foldl_append, List.foldl_cons, List.foldl_nil, Std.ExtTreeMap.getElem?_insert, hvalues]
    by_cases he : e.1 = k
    · subst he
      rw [if_pos (compare_eq_iff_eq.2 rfl), if_pos rfl, if_neg (by simp), List.foldl_append,
        Std.ExtTreeMap.getD_eq_getD_getElem?, ih]
      split_ifs with hnil
      · rw [hnil]
        rfl
      · rfl
    · rw [if_neg (by simpa using he), if_neg he, List.append_nil, ih]

/-- The last value of a key stays. -/
theorem getElem?_foldl_insert_last (entries : List (κ × β)) (k : κ) :
    (entries.foldl (fun (m : Std.ExtTreeMap κ β compare) e => m.insert e.1 e.2) ∅)[k]? =
      (valuesOf entries k).getLast? := by
  induction entries using List.reverseRecOn with
  | nil => simp [valuesOf]
  | append_singleton entries e ih =>
    rw [List.foldl_append, List.foldl_cons, List.foldl_nil, Std.ExtTreeMap.getElem?_insert, ih]
    by_cases he : e.1 = k <;> simp [valuesOf, List.filterMap_append, he]

/-- The values of one key in a list of entries with distinct keys. -/
theorem filterMap_key {γ : Type} {entries : List (κ × β)}
    (hdistinct : entries.Pairwise fun a b => a.1 ≠ b.1) (g : β → Option γ) (k : κ) :
    (∀ b, (k, b) ∈ entries →
      (entries.filterMap fun e => if e.1 = k then g e.2 else none) = (g b).toList) ∧
    ((∀ b, (k, b) ∉ entries) →
      (entries.filterMap fun e => if e.1 = k then g e.2 else none) = []) := by
  induction entries with
  | nil => simp
  | cons e entries ih =>
    obtain ⟨hhead, htail⟩ := List.pairwise_cons.1 hdistinct
    obtain ⟨hsome, hnone⟩ := ih htail
    obtain ⟨k', b'⟩ := e
    by_cases hk : k' = k
    · subst hk
      have hrest : ∀ b, (k', b) ∉ entries := fun b hmem => hhead _ hmem rfl
      have heq : (((k', b') :: entries).filterMap fun e => if e.1 = k' then g e.2 else none) =
          (g b').toList := by
        rw [List.filterMap_cons, if_pos rfl, hnone hrest]
        cases g b' <;> rfl
      refine ⟨fun b hmem => ?_, fun hmem => absurd List.mem_cons_self (hmem b')⟩
      rcases List.mem_cons.1 hmem with hb | hb
      · rw [heq, (Prod.mk.inj hb).2]
      · exact absurd hb (hrest b)
    · have hskip : (((k', b') :: entries).filterMap fun e => if e.1 = k then g e.2 else none) =
          entries.filterMap fun e => if e.1 = k then g e.2 else none := by
        rw [List.filterMap_cons, if_neg hk]
      rw [hskip]
      refine ⟨fun b hmem => hsome b ?_, fun hmem => hnone fun b hb => hmem b
        (List.mem_cons_of_mem _ hb)⟩
      rcases List.mem_cons.1 hmem with hb | hb
      · exact absurd (Prod.mk.inj hb).1.symm hk
      · exact hb

/-- The value of one key of a sorted map. -/
theorem filterMap_toList_key {γ : Type} (t : Std.ExtTreeMap κ β compare)
    (g : β → Option γ) (k : κ) :
    (t.toList.filterMap fun e => if e.1 = k then g e.2 else none) = (t[k]?.bind g).toList := by
  have hdistinct : t.toList.Pairwise fun a b => a.1 ≠ b.1 :=
    Std.ExtTreeMap.distinct_keys_toList.imp fun hne heq => hne (compare_eq_iff_eq.2 heq)
  obtain ⟨hsome, hnone⟩ := filterMap_key hdistinct g k
  cases hget : t[k]? with
  | none =>
    refine hnone fun b hmem => ?_
    rw [Std.ExtTreeMap.mem_toList_iff_getElem?_eq_some, hget] at hmem
    cases hmem
  | some b => exact hsome b (Std.ExtTreeMap.mem_toList_iff_getElem?_eq_some.2 hget)

theorem pairwise_zipIdx (xs : List β) (k : ℕ) : (xs.zipIdx k).Pairwise fun a b => a.2 < b.2 := by
  induction xs generalizing k with
  | nil => exact .nil
  | cons x xs ih =>
    rw [List.zipIdx_cons]
    refine List.pairwise_cons.2 ⟨fun e he => ?_, ih (k + 1)⟩
    exact Nat.lt_of_succ_le (List.le_snd_of_mem_zipIdx he)

/-- The element at an index, found by its index. -/
theorem filterMap_zipIdx {γ : Type} (xs : List β) (g : β → Option γ) (i : ℕ) :
    (xs.zipIdx.filterMap fun e => if e.2 = i then g e.1 else none) = (xs[i]?.bind g).toList := by
  have hdistinct : (xs.zipIdx.map Prod.swap).Pairwise fun a b : ℕ × β => a.1 ≠ b.1 :=
    List.pairwise_map.2 ((pairwise_zipIdx xs 0).imp fun hlt => hlt.ne)
  have hmap : (xs.zipIdx.filterMap fun e => if e.2 = i then g e.1 else none) =
      (xs.zipIdx.map Prod.swap).filterMap fun e => if e.1 = i then g e.2 else none := by
    rw [List.filterMap_map]
    rfl
  have hmem : ∀ b, (i, b) ∈ xs.zipIdx.map Prod.swap ↔ xs[i]? = some b := by
    intro b
    rw [← List.mk_mem_zipIdx_iff_getElem?, List.mem_map]
    constructor
    · rintro ⟨⟨b', i'⟩, he, heq⟩
      obtain ⟨rfl, rfl⟩ := Prod.mk.inj heq
      exact he
    · exact fun he => ⟨(b, i), he, rfl⟩
  obtain ⟨hsome, hnone⟩ := filterMap_key hdistinct g i
  rw [hmap]
  cases hget : xs[i]? with
  | none =>
    refine hnone fun b hb => ?_
    rw [hmem, hget] at hb
    cases hb
  | some b => exact hsome b ((hmem b).2 hget)

/-- Insertions under different keys: each is found, and the others stay. -/
theorem getElem?_foldl_insert_key {key : β → κ} (files : Std.ExtTreeMap κ β compare) {xs : List β}
    (hnodup : (xs.map key).Nodup) :
    (∀ x ∈ xs, (xs.foldl (fun files x => files.insert (key x) x) files)[key x]? = some x) ∧
    ∀ k, (∀ x ∈ xs, key x ≠ k) →
    (xs.foldl (fun files x => files.insert (key x) x) files)[k]? = files[k]? := by
  induction xs using List.reverseRecOn with
  | nil => exact ⟨fun _ hx => absurd hx List.not_mem_nil, fun _ _ => rfl⟩
  | append_singleton xs last ih =>
    rw [List.map_append, List.nodup_append] at hnodup
    obtain ⟨hbefore, -, hdisjoint⟩ := hnodup
    obtain ⟨hin, hout⟩ := ih hbefore
    constructor
    · intro x hx
      rw [List.foldl_append, List.foldl_cons, List.foldl_nil, Std.ExtTreeMap.getElem?_insert]
      rcases List.mem_append.1 hx with hx | hx
      · have hne := hdisjoint (key x) (List.mem_map_of_mem hx) (key last) (List.mem_singleton.2 rfl)
        rw [if_neg fun heq => hne (compare_eq_iff_eq.1 heq).symm]
        exact hin x hx
      · rw [List.mem_singleton.1 hx, if_pos (compare_eq_iff_eq.2 rfl)]
    · intro k hk
      rw [List.foldl_append, List.foldl_cons, List.foldl_nil, Std.ExtTreeMap.getElem?_insert,
        if_neg fun heq => hk last (List.mem_append_right _ List.mem_cons_self)
        (compare_eq_iff_eq.1 heq)]
      exact hout k fun x hx => hk x (List.mem_append_left _ hx)

/-- A sorted map lists an increasing list with the same entries. -/
theorem toList_eq_of_mem {t : Std.ExtTreeMap κ β compare} {entries : List (κ × β)}
    (hsorted : entries.Pairwise fun a b => a.1 < b.1)
    (hmem : ∀ k b, (k, b) ∈ entries ↔ t[k]? = some b) : t.toList = entries := by
  have hlisted : t.toList.Pairwise fun a b => a.1 < b.1 :=
    Std.ExtTreeMap.ordered_keys_toList.imp fun hlt => compare_lt_iff_lt.1 hlt
  refine List.Perm.eq_of_pairwise (fun a b _ _ hab hba => absurd (lt_trans hab hba) (lt_irrefl _))
    hlisted hsorted ((List.perm_ext_iff_of_nodup ?_ ?_).2 ?_)
  · exact hlisted.imp fun hab heq => by rw [heq] at hab; exact lt_irrefl _ hab
  · exact hsorted.imp fun hab heq => by rw [heq] at hab; exact lt_irrefl _ hab
  · rintro ⟨k, b⟩
    rw [hmem, Std.ExtTreeMap.mem_toList_iff_getElem?_eq_some]

end TraceDB
