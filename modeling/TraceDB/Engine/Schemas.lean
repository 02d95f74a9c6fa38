import Mathlib.Data.List.Forall2
import Mathlib.Data.List.Induction
import TraceDB.Store.Basic

/-!
# The schemas of a manifest

`upsertSchema` installs a schema under its name.  `Covers schemas changes` says that the schemas
already hold what the changes end with; replaying such changes changes nothing
(`Covers.foldl_upsertSchema`), which is why a log may be replayed over a manifest that is ahead of
it.
-/

namespace TraceDB

/-- `upsert_schema`. -/
def upsertSchema : List TableSchema → TableSchema → List TableSchema
  | [], schema => [schema]
  | existing :: schemas, schema =>
    if existing.name = schema.name then schema :: schemas
    else existing :: upsertSchema schemas schema

/-- Every change of the list that is the last one of its table is in the schemas. -/
def Covers (schemas changes : List TableSchema) : Prop :=
  ∀ name schema, changes.findLast? (fun change => decide (change.name = name)) = some schema →
    findTable schemas name = some schema

theorem tableOrUnknown_eq_ok {schemas : List TableSchema} {table : String} {schema : TableSchema} :
    tableOrUnknown schemas table = .ok schema ↔ findTable schemas table = some schema := by
  unfold tableOrUnknown
  cases findTable schemas table with
  | none => simp
  | some found => simp

theorem findTable_of_mem {schemas : List TableSchema} (h : (schemas.map (·.name)).Nodup)
    {schema : TableSchema} (hmem : schema ∈ schemas) :
      findTable schemas schema.name = some schema :=
  (List.find?_key_eq_some h).2 ⟨hmem, rfl⟩

theorem findTable_upsertSchema (schemas : List TableSchema) (schema : TableSchema) (name : String) :
    findTable (upsertSchema schemas schema) name =
      if schema.name = name then some schema else findTable schemas name := by
  induction schemas with
  | nil =>
    by_cases h : schema.name = name <;> simp [upsertSchema, findTable, h]
  | cons existing schemas ih =>
    simp only [findTable] at ih
    by_cases he : existing.name = schema.name
    · by_cases h : schema.name = name
      · simp [upsertSchema, findTable, he, h]
      · simp [upsertSchema, findTable, he, h]
    · by_cases h : existing.name = name
      · have hne : schema.name ≠ name := fun hs => he (h.trans hs.symm)
        simp [upsertSchema, findTable, h, hne, hne.symm]
      · simp [upsertSchema, findTable, he, h, ih]

theorem eq_nil_of_foldl_upsertSchema {schemas changes : List TableSchema}
    (h : changes.foldl upsertSchema schemas = []) : schemas = [] := by
  induction changes generalizing schemas with
  | nil => exact h
  | cons change changes ih =>
    have hnil : upsertSchema schemas change = [] := ih h
    cases schemas with
    | nil => rfl
    | cons existing schemas =>
      simp only [upsertSchema] at hnil
      split_ifs at hnil

theorem mem_upsertSchema {schemas : List TableSchema} {schema other : TableSchema}
    (h : other ∈ upsertSchema schemas schema) : other = schema ∨ other ∈ schemas := by
  induction schemas with
  | nil => exact .inl (by simpa [upsertSchema] using h)
  | cons existing schemas ih =>
    simp only [upsertSchema] at h
    split_ifs at h with he
    · rcases List.mem_cons.1 h with rfl | hmem
      · exact .inl rfl
      · exact .inr (List.mem_cons_of_mem _ hmem)
    · rcases List.mem_cons.1 h with rfl | hmem
      · exact .inr List.mem_cons_self
      · exact (ih hmem).imp id (List.mem_cons_of_mem _)

theorem nodup_upsertSchema {schemas : List TableSchema} (h : (schemas.map (·.name)).Nodup)
    (schema : TableSchema) : ((upsertSchema schemas schema).map (·.name)).Nodup := by
  induction schemas with
  | nil => simp [upsertSchema]
  | cons existing schemas ih =>
    rw [List.map_cons, List.nodup_cons] at h
    simp only [upsertSchema]
    split_ifs with he
    · rw [List.map_cons, List.nodup_cons, ← he]
      exact h
    · rw [List.map_cons, List.nodup_cons]
      refine ⟨fun hmem => ?_, ih h.2⟩
      obtain ⟨other, hother, hname⟩ := List.mem_map.1 hmem
      rcases mem_upsertSchema hother with rfl | hin
      · exact he hname.symm
      · exact h.1 (List.mem_map.2 ⟨other, hin, hname⟩)

theorem nodup_foldl_upsertSchema {schemas : List TableSchema} (h : (schemas.map (·.name)).Nodup)
    (changes : List TableSchema) : ((changes.foldl upsertSchema schemas).map (·.name)).Nodup := by
  induction changes generalizing schemas with
  | nil => exact h
  | cons change changes ih => exact ih (nodup_upsertSchema h change)

/-- Installing further changes covers them too. -/
theorem Covers.append {schemas changes : List TableSchema} (h : Covers schemas changes)
    {more : List TableSchema} : Covers (more.foldl upsertSchema schemas) (changes ++ more) := by
  induction more using List.reverseRecOn with
  | nil => simpa using h
  | append_singleton more change ih =>
    intro name schema hfind
    rw [List.foldl_append, List.foldl_cons, List.foldl_nil, findTable_upsertSchema]
    rw [← List.append_assoc, List.findLast?_append_singleton] at hfind
    by_cases hname : change.name = name
    · simpa [hname] using hfind
    · simp only [hname, decide_false, Bool.false_eq_true, if_false] at hfind
      rw [if_neg hname]
      exact ih name schema hfind

/-- Two lists of schemas with the same names, which differ only at the tables of `names`. -/
def AgreeOff (names : List String) (left right : List TableSchema) : Prop :=
  List.Forall₂ (fun a b => a.name = b.name ∧ (a = b ∨ b.name ∈ names)) left right

theorem AgreeOff.weaken {name : String} {names : List String} {left right : List TableSchema}
    (h : AgreeOff (name :: names) left right) (hmem : name ∉ right.map (·.name)) :
    AgreeOff names left right := by
  induction h with
  | nil => exact .nil
  | @cons a b left right hab _ ih =>
    rw [List.map_cons, List.mem_cons, not_or] at hmem
    refine .cons ⟨hab.1, hab.2.imp id fun hin => ?_⟩ (ih hmem.2)
    exact (List.mem_cons.1 hin).resolve_left (Ne.symm hmem.1)

theorem AgreeOff.upsert {names : List String} {left right : List TableSchema}
    {schema : TableSchema} (h : AgreeOff (schema.name :: names) left right)
    (hnodup : (right.map (·.name)).Nodup) (hmem : schema.name ∈ right.map (·.name))
    (hsettled : schema.name ∈ names ∨ findTable right schema.name = some schema) :
    AgreeOff names (upsertSchema left schema) right := by
  induction h with
  | nil => simp at hmem
  | @cons a b left right hab hrest ih =>
    rw [List.map_cons, List.nodup_cons] at hnodup
    by_cases hname : a.name = schema.name
    · have hb : b.name = schema.name := hab.1.symm.trans hname
      simp only [upsertSchema, hname, if_true]
      refine .cons ⟨hb.symm, ?_⟩ (AgreeOff.weaken hrest (hb ▸ hnodup.1))
      rcases hsettled with hin | hfind
      · exact .inr (hb ▸ hin)
      · left
        simpa [findTable, hb, eq_comm] using hfind
    · have hb : b.name ≠ schema.name := fun hb => hname (hab.1.trans hb)
      simp only [upsertSchema, hname, if_false]
      refine .cons ⟨hab.1, hab.2.imp id fun hin => ?_⟩ (ih hnodup.2 ?_ ?_)
      · exact (List.mem_cons.1 hin).resolve_left hb
      · exact (List.mem_cons.1 hmem).resolve_left hb.symm
      · refine hsettled.imp id fun hfind => ?_
        simpa [findTable, hb] using hfind

theorem Covers.of_cons {schemas changes : List TableSchema} {change : TableSchema}
    (h : Covers schemas (change :: changes)) : Covers schemas changes := by
  intro name schema hfind
  refine h name schema ?_
  simp only [List.findLast?, List.reverse_cons, List.find?_append] at hfind ⊢
  simp [hfind]

/-- Replaying changes over schemas that already cover them changes nothing. -/
theorem Covers.foldl_upsertSchema {schemas changes : List TableSchema} (h : Covers schemas changes)
    (hnodup : (schemas.map (·.name)).Nodup) : changes.foldl upsertSchema schemas = schemas := by
  have hgen : ∀ {left : List TableSchema}, AgreeOff (changes.map (·.name)) left schemas →
      changes.foldl upsertSchema left = schemas := by
    -- On the way the tables of the remaining changes may hold older schemas.
    induction changes with
    | nil =>
      intro left hleft
      refine List.forall₂_eq_eq_eq ▸ (hleft.imp fun a b hab => ?_)
      exact hab.2.resolve_right (by simp)
    | cons change changes ih =>
      intro left hleft
      rw [List.foldl_cons]
      refine ih h.of_cons (hleft.upsert hnodup ?_ ?_)
      · obtain ⟨last, hlast⟩ : ∃ last, (change :: changes).findLast?
            (fun c => decide (c.name = change.name)) = some last := by
          rw [← Option.ne_none_iff_exists', ne_eq, List.findLast?_eq_none]
          exact fun hnone => hnone change List.mem_cons_self (by simp)
        have hfind := h _ _ hlast
        exact List.mem_map.2 ⟨last, List.mem_of_find?_eq_some hfind,
          by simpa using List.find?_some hfind⟩
      · by_cases hlater : change.name ∈ changes.map (·.name)
        · exact .inl hlater
        · refine .inr (h _ _ ?_)
          have hnone : changes.findLast? (fun c => decide (c.name = change.name)) = none := by
            rw [List.findLast?_eq_none]
            intro c hc hname
            exact hlater (List.mem_map.2 ⟨c, hc, by simpa using hname⟩)
          simp only [List.findLast?, List.reverse_cons, List.find?_append] at hnone ⊢
          simp [hnone]
  exact hgen (List.forall₂_same.2 fun schema _ => ⟨rfl, .inl rfl⟩)

end TraceDB
