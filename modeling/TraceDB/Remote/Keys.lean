import TraceDB.Core.Names
import TraceDB.Remote.Store

/-!
# The paths of object keys

The manifests and leases of all branches share one bucket, and `ObjectKey::path` is meant to keep
them apart.  `safe_component` leaves an underscore as it is, and, unlike `safe_shard_component`, it
leaves `.` and `..` as they are.  `object_paths_apart_iff` says between which keys and for which
names this shows.
-/

namespace TraceDB

/-! ### Components -/

/-- The names that `safe_component` maps to one component. -/
def SameComponent (a b : String) : Prop :=
  SameName a b ∨ (a ∈ ["", "_empty"] ∧ b ∈ ["", "_empty"])

theorem safeComponent_eq (value : String) :
    safeComponent value = if value = "" then "_empty" else spelledName value := by
  have hloop : safeComponent value =
      if spelledName value = "" then "_empty" else spelledName value := rfl
  rw [hloop, if_congr spelledName_eq_empty rfl rfl]

theorem unmarked_emptyNames : ∀ word ∈ ["", "_empty"], Unmarked word := by decide +kernel

theorem safeComponent_eq_empty {value : String} :
    safeComponent value = "_empty" ↔ value ∈ ["", "_empty"] := by
  rw [safeComponent_eq, List.mem_pair]
  split_ifs with hvalue
  · simp [hvalue]
  · rw [(unmarked_emptyNames "_empty" (by decide)).spelledName_iff]
    simp [hvalue]

theorem safeComponent_of_notMem {value : String} (h : value ∉ ["", "_empty"]) :
    safeComponent value = spelledName value := by
  rw [safeComponent_eq, if_neg]
  rintro rfl
  exact h (by decide)

theorem safeComponent_eq_iff {a b : String} :
    safeComponent a = safeComponent b ↔ SameComponent a b := by
  -- The names with the component `_empty` are spelled like no other name.
  have hmem : SameName a b → (a ∈ ["", "_empty"] ↔ b ∈ ["", "_empty"]) :=
    SameName.mem_iff unmarked_emptyNames
  rw [SameComponent]
  by_cases ha : a ∈ ["", "_empty"]
  · rw [safeComponent_eq_empty.2 ha, eq_comm, safeComponent_eq_empty]
    refine ⟨fun hb => .inr ⟨ha, hb⟩, fun h => ?_⟩
    rcases h with hsame | ⟨-, hb⟩
    · exact (hmem hsame).1 ha
    · exact hb
  · by_cases hb : b ∈ ["", "_empty"]
    · rw [safeComponent_eq_empty.2 hb, safeComponent_eq_empty]
      refine ⟨fun ha' => absurd ha' ha, fun h => ?_⟩
      rcases h with hsame | ⟨ha', -⟩
      · exact (hmem hsame).2 hb
      · exact ha'
    · rw [safeComponent_of_notMem ha, safeComponent_of_notMem hb, spelledName_eq_iff]
      exact ⟨.inl, fun h => h.resolve_right fun h => ha h.1⟩

theorem slash_notMem_safeComponent (value : String) : '/' ∉ (safeComponent value).toList := by
  rw [safeComponent_eq]
  split_ifs
  · decide
  · exact slash_notMem_spelledName value

/-- A component is a proper name unless it is given as one of the two that are not. -/
theorem properName_safeComponent {value : String} :
    ProperName (safeComponent value) ↔ value ≠ "." ∧ value ≠ ".." := by
  have hdot : Unmarked "." := by decide +kernel
  have hdots : Unmarked ".." := by decide +kernel
  rw [safeComponent_eq, ProperName]
  split_ifs with hvalue
  · subst hvalue
    decide
  · rw [ne_eq, spelledName_eq_empty, ne_eq, hdot.spelledName_iff, ne_eq, hdots.spelledName_iff]
    exact and_iff_right hvalue

/-! ### Keys -/

/-- The keys that differ only by names with one component. -/
structure SameKey (key key' : ObjectKey) : Prop where
  databaseId : SameComponent key.databaseId key'.databaseId
  branchId : SameComponent key.branchId key'.branchId
  kind : key.kind = key'.kind
  name : SameComponent key.name key'.name

theorem pathComponents_asPath (kind : ObjectKind) : pathComponents kind.asPath = [kind.asPath] := by
  cases kind <;> decide +kernel

theorem ObjectKind.asPath_injective : Function.Injective ObjectKind.asPath := by
  intro a b h
  cases a <;> cases b <;> first | rfl | exact absurd h (by decide)

theorem ObjectKind.properName_asPath (kind : ObjectKind) : ProperName kind.asPath := by
  cases kind <;> decide +kernel

theorem ObjectKey.path_def (key : ObjectKey) :
    key.path = "databases/" ++ safeComponent key.databaseId ++ "/branches/" ++
      safeComponent key.branchId ++ "/" ++ key.kind.asPath ++ "/" ++ safeComponent key.name := by
  cases key
  rfl

/-- The components of a path. -/
theorem ObjectKey.pathComponents_path (key : ObjectKey) :
    pathComponents key.path = ["databases", safeComponent key.databaseId, "branches",
      safeComponent key.branchId, key.kind.asPath, safeComponent key.name] := by
  have hpath : key.path = "databases" ++ "/" ++ (safeComponent key.databaseId ++ "/" ++
      ("branches" ++ "/" ++ (safeComponent key.branchId ++ "/" ++
        (key.kind.asPath ++ "/" ++ safeComponent key.name)))) := by
    have hfirst : "databases/" = "databases" ++ "/" := by simp
    have hmiddle : "/branches/" = "/" ++ "branches" ++ "/" := by simp
    simp only [key.path_def, hfirst, hmiddle, String.append_assoc]
  have hdatabases : pathComponents "databases" = ["databases"] := by decide +kernel
  have hbranches : pathComponents "branches" = ["branches"] := by decide +kernel
  rw [hpath, pathComponents_append, pathComponents_append, pathComponents_append,
    pathComponents_append, pathComponents_append, pathComponents_asPath, hdatabases, hbranches,
    pathComponents_of_notMem (slash_notMem_safeComponent _),
    pathComponents_of_notMem (slash_notMem_safeComponent _),
    pathComponents_of_notMem (slash_notMem_safeComponent _)]
  simp only [List.cons_append, List.nil_append]

/-- **The keys with one path.** -/
theorem ObjectKey.path_eq_iff {key key' : ObjectKey} : key.path = key'.path ↔ SameKey key key' := by
  constructor
  · intro h
    have hparts := congrArg pathComponents h
    rw [key.pathComponents_path, key'.pathComponents_path] at hparts
    simp only [List.cons.injEq, true_and, and_true] at hparts
    obtain ⟨hdatabase, hbranch, hkind, hname⟩ := hparts
    exact ⟨safeComponent_eq_iff.1 hdatabase, safeComponent_eq_iff.1 hbranch,
      ObjectKind.asPath_injective hkind, safeComponent_eq_iff.1 hname⟩
  · intro h
    rw [key.path_def, key'.path_def, safeComponent_eq_iff.2 h.databaseId,
      safeComponent_eq_iff.2 h.branchId, h.kind, safeComponent_eq_iff.2 h.name]

theorem objectPath_def (objectPrefix : String) (key : ObjectKey) :
    objectPath objectPrefix key =
      if (trimSlashes objectPrefix).isEmpty then key.path
      else trimSlashes objectPrefix ++ "/" ++ key.path :=
  rfl

theorem objectPath_eq_iff {objectPrefix : String} {key key' : ObjectKey} :
    objectPath objectPrefix key = objectPath objectPrefix key' ↔ SameKey key key' := by
  rw [← ObjectKey.path_eq_iff, objectPath_def, objectPath_def]
  split_ifs
  · rfl
  · rw [String.append_right_inj]

/-- The components before those of the key. -/
def prefixComponents (objectPrefix : String) : List String :=
  if (trimSlashes objectPrefix).isEmpty then [] else pathComponents (trimSlashes objectPrefix)

theorem pathComponents_objectPath (objectPrefix : String) (key : ObjectKey) :
    pathComponents (objectPath objectPrefix key) =
      prefixComponents objectPrefix ++ pathComponents key.path := by
  rw [objectPath_def, prefixComponents]
  split_ifs
  · rw [List.nil_append]
  · exact pathComponents_append ..

/-- No name of the key is `.` or `..`. -/
def ObjectKey.NamesProper (key : ObjectKey) : Prop :=
  ∀ name ∈ [key.databaseId, key.branchId, key.name], name ≠ "." ∧ name ≠ ".."

theorem ObjectKey.properNames_path {key : ObjectKey} :
    (∀ component ∈ pathComponents key.path, ProperName component) ↔ key.NamesProper := by
  have hdatabases : ProperName "databases" := by decide
  have hbranches : ProperName "branches" := by decide
  rw [key.pathComponents_path, ObjectKey.NamesProper]
  simp only [List.forall_mem_cons, properName_safeComponent, hdatabases, hbranches,
    key.kind.properName_asPath, List.not_mem_nil, IsEmpty.forall_iff, implies_true, and_true,
    true_and]

/-- **When the objects of two keys are kept apart**, under proper names, whatever the prefix of the
storage profile is. -/
theorem object_paths_apart_iff (objectPrefix : String) (key key' : ObjectKey) :
    ((key ≠ key' → key.path ≠ key'.path ∧
      objectPath objectPrefix key ≠ objectPath objectPrefix key') ∧
        (∀ component ∈ pathComponents key.path, ProperName component) ∧
        ∀ component ∈ pathComponents (objectPath objectPrefix key), ProperName component) ↔
      (SameKey key key' → key = key') ∧ key.NamesProper ∧
        ∀ component ∈ prefixComponents objectPrefix, ProperName component := by
  simp only [ne_eq, ObjectKey.path_eq_iff, objectPath_eq_iff, and_self, not_imp_not,
    pathComponents_objectPath, List.forall_mem_append, ObjectKey.properNames_path]
  constructor
  · rintro ⟨hkeys, hnames, hprefix, -⟩
    exact ⟨hkeys, hnames, hprefix⟩
  · rintro ⟨hkeys, hnames, hprefix⟩
    exact ⟨hkeys, hnames, hprefix, hnames⟩

/-- Two databases whose manifests are one object, and a name that leads out of its directory. -/
theorem escaped_twice :
    let key : ObjectKey := ⟨"a/b", "main", .manifestPointer, "current"⟩
    let key' : ObjectKey := ⟨"a_2fb", "main", .manifestPointer, "current"⟩
    let up : ObjectKey := ⟨"a", "main", .snapshot, ".."⟩
    (key ≠ key' ∧ key.path = key'.path ∧ objectPath "" key = objectPath "" key') ∧
      ∃ component ∈ pathComponents up.path, ¬ ProperName component := by
  refine ⟨by decide +kernel, "..", by decide +kernel, by decide +kernel⟩

end TraceDB
