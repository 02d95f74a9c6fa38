import TraceDB.Store.Planning

/-!
# Writes and the records of other tenants

A store holds the records of all tenants.  A write ends a version under its key and appends a new
one, so it can change a record of another tenant in two ways: the new version is one, or the version
that it ends is one.  The second happens when two tenants share a key, which takes a NUL in a
tenant.

* `RecordStore.KeepsOthers` : two stores with the same versions of the tenants other than one.
* `keepsOthers_iff` : a list of writes keeps them just when every write is about the one tenant, and
  ends no version of another.

The proof weighs the versions of the other tenants.  No write makes them lighter, and one that
changes them makes them heavier, so no later write can undo it.
-/

namespace TraceDB

variable {sourceHash : Fields → List String → ℕ}

/-- The test for the version that a write ends. -/
def StoreWrite.ends : StoreWrite → StoredRecord → Bool
  | .replace _ _ _ | .mutate _ _ _ => StoredRecord.isCurrent
  | .delete _ _ _ | .invalidate _ _ => StoredRecord.isLive

/-- The write appends a version. -/
def StoreWrite.Appends : StoreWrite → Prop
  | .invalidate _ _ => False
  | _ => True

/-- What a write that appends a version does. -/
theorem StoreWrite.Appends.onVersions {write : StoreWrite} (happends : write.Appends)
    {versions versions' : Versions} (h : write.onVersions sourceHash versions = .ok versions') :
    ∃ new, versions' = versions.modifyLastWhere write.ends (·.endAt write.epoch) ++ [new] ∧
      new.triple = write.target ∧ new.isCurrent = true := by
  cases write with
  | replace schema input epoch =>
    simp only [StoreWrite.onVersions, replaceVersions, Except.bind_eq_ok_iff] at h
    obtain ⟨new, hnew, h⟩ := h
    have hheader := buildReplacementRecord_spec hnew
    refine ⟨new, (Except.ok.inj h).symm, ?_, ?_⟩
    · simp [StoredRecord.triple, hheader, newHeader, target]
    · simp [StoredRecord.isCurrent, hheader, newHeader]
  | mutate schema mutation epoch =>
    simp only [StoreWrite.onVersions, mutateVersions, Except.bind_eq_ok_iff] at h
    obtain ⟨new, hnew, h⟩ := h
    have hheader := buildMutationRecord_spec hnew
    refine ⟨new, (Except.ok.inj h).symm, ?_, ?_⟩
    · simp [StoredRecord.triple, hheader, newHeader, target]
    · simp [StoredRecord.isCurrent, hheader, newHeader]
  | delete schema deletion epoch =>
    simp only [StoreWrite.onVersions, deleteVersions, Except.bind_eq_ok_iff] at h
    obtain ⟨-, -, h⟩ := h
    split at h
    · cases h
    · exact ⟨_, (Except.ok.inj h).symm, rfl, rfl⟩
  | invalidate invalidation epoch => exact absurd happends id

theorem StoreWrite.isCurrent_of_ends {write : StoreWrite} {record : StoredRecord}
    (h : write.ends record = true) : record.isCurrent = true := by
  cases write with
  | replace schema input epoch => exact h
  | mutate schema mutation epoch => exact h
  | delete schema deletion epoch => exact (Bool.and_eq_true_iff.1 h).1
  | invalidate invalidation epoch => exact (Bool.and_eq_true_iff.1 h).1

/-! ### Versions of other tenants -/

/-- The versions of the tenants other than one. -/
def othersOf (tenantId : String) (versions : Versions) : Versions :=
  versions.filter fun record => decide (record.header.tenantId ≠ tenantId)

/-- The weight of versions: one for each, and one more when it has ended. -/
def weight (versions : Versions) : ℕ :=
  versions.length + versions.countP fun record => !record.isCurrent

theorem othersOf_append (tenantId : String) (versions versions' : Versions) :
    othersOf tenantId (versions ++ versions') =
      othersOf tenantId versions ++ othersOf tenantId versions' := List.filter_append ..

theorem othersOf_cons_of_ne {tenantId : String} {record : StoredRecord}
    (h : record.header.tenantId ≠ tenantId) (versions : Versions) :
    othersOf tenantId (record :: versions) = record :: othersOf tenantId versions :=
  List.filter_cons_of_pos (decide_eq_true h)

theorem othersOf_cons_of_eq {tenantId : String} {record : StoredRecord}
    (h : record.header.tenantId = tenantId) (versions : Versions) :
    othersOf tenantId (record :: versions) = othersOf tenantId versions :=
  List.filter_cons_of_neg (by simpa using h)

theorem weight_append (versions versions' : Versions) :
    weight (versions ++ versions') = weight versions + weight versions' := by
  simp only [weight, List.length_append, List.countP_append]
  omega

theorem weight_cons (record : StoredRecord) (versions : Versions) :
    weight (record :: versions) = (if record.isCurrent then 1 else 2) + weight versions := by
  cases h : record.isCurrent with
  | true => simp [weight, h]; omega
  | false => simp [weight, h]; omega

namespace RecordStore

/-- The versions of the other tenants are the same in two stores. -/
def KeepsOthers (tenantId : String) (store store' : RecordStore) : Prop :=
  ∀ key, othersOf tenantId (store'.versionsAt key) = othersOf tenantId (store.versionsAt key)

theorem KeepsOthers.refl (tenantId : String) (store : RecordStore) :
    KeepsOthers tenantId store store := fun _ => rfl

theorem KeepsOthers.trans {tenantId : String} {store store' store'' : RecordStore}
    (h : KeepsOthers tenantId store store') (h' : KeepsOthers tenantId store' store'') :
    KeepsOthers tenantId store store'' := fun key => (h' key).trans (h key)

/-- A record that is written is one tenant's, and no version of another tenant ends. -/
def StaysWithin (tenantId : String) (store : RecordStore) (ends : StoredRecord → Bool)
    (target : RecordTriple) : Prop :=
  target.tenantId = tenantId ∧
    ∀ record, (store.versionsAt target.key).findLast? ends = some record →
      record.header.tenantId = tenantId

end RecordStore

/-! ### One write -/

/-- Ending a version of the tenant does not touch the others. -/
theorem othersOf_modify {tenantId : String} {p : StoredRecord → Bool} {versions : Versions}
    (h : ∀ record, versions.findLast? p = some record → record.header.tenantId = tenantId)
    (epoch : Epoch) :
    othersOf tenantId (versions.modifyLastWhere p (·.endAt epoch)) =
      othersOf tenantId versions := by
  cases hfind : versions.findLast? p with
  | none => rw [List.modifyLastWhere_of_forall_not _ (List.findLast?_eq_none.1 hfind)]
  | some record =>
    obtain ⟨before, after, hsplit, -, hmodify⟩ := List.split_findLast? hfind
    have hown := h record hfind
    rw [hmodify, hsplit, othersOf_append, othersOf_append, othersOf_cons_of_eq hown]
    have hended : (record.endAt epoch).header.tenantId = tenantId := hown
    rw [othersOf_cons_of_eq hended]

/-- Ending a version of another tenant makes the others heavier. -/
theorem weight_modify {tenantId : String} {p : StoredRecord → Bool}
    (hp : ∀ record, p record = true → record.isCurrent = true) {versions : Versions}
    {record : StoredRecord} (hfind : versions.findLast? p = some record)
    (hother : record.header.tenantId ≠ tenantId) (epoch : Epoch) :
    weight (othersOf tenantId (versions.modifyLastWhere p (·.endAt epoch))) =
      weight (othersOf tenantId versions) + 1 := by
  obtain ⟨before, after, hsplit, -, hmodify⟩ := List.split_findLast? hfind
  have hended : (record.endAt epoch).header.tenantId ≠ tenantId := hother
  have hcurrent := hp record (List.prop_of_findLast? hfind)
  have hclosed : (record.endAt epoch).isCurrent = false := rfl
  rw [hmodify, hsplit, othersOf_append, othersOf_append, othersOf_cons_of_ne hother,
    othersOf_cons_of_ne hended, weight_append, weight_append, weight_cons, weight_cons,
    hcurrent, hclosed]
  simp only [if_true, Bool.false_eq_true, if_false]
  omega

namespace RecordStore

variable {tenantId : String} {store store' : RecordStore} {write : StoreWrite}

/-- The weight of the other tenants under a key. -/
def weightAt (tenantId : String) (store : RecordStore) (key : String) : ℕ :=
  weight (othersOf tenantId (store.versionsAt key))

theorem KeepsOthers.weightAt (h : KeepsOthers tenantId store store') (key : String) :
    store'.weightAt tenantId key = store.weightAt tenantId key := congrArg weight (h key)

/-- A write that stays within the tenant keeps the others. -/
theorem StaysWithin.keepsOthers (h : StaysWithin tenantId store write.ends write.target)
    (happends : write.Appends) (happly : write.apply sourceHash store = .ok store') :
      KeepsOthers tenantId store store' := by
  rw [StoreWrite.apply_eq] at happly
  obtain ⟨versions, hwrite, rfl⟩ := applyAt_eq_ok happly
  obtain ⟨new, rfl, htriple, -⟩ := happends.onVersions hwrite
  intro key
  rw [versionsAt_set]
  split_ifs with hkey
  · subst hkey
    have hnew : new.header.tenantId = tenantId := (congrArg (·.tenantId) htriple).trans h.1
    rw [othersOf_append, othersOf_modify h.2, othersOf_cons_of_eq hnew]
    exact List.append_nil _
  · rfl

/-- No write makes the other tenants lighter, and only one that stays within the tenant leaves their
weight alone. -/
theorem weightAt_apply (happends : write.Appends)
    (happly : write.apply sourceHash store = .ok store') :
    (∀ key, store.weightAt tenantId key ≤ store'.weightAt tenantId key) ∧
      (store'.weightAt tenantId write.target.key = store.weightAt tenantId write.target.key →
        StaysWithin tenantId store write.ends write.target) := by
  by_cases hstays : StaysWithin tenantId store write.ends write.target
  · exact ⟨fun key => ((hstays.keepsOthers happends happly).weightAt key).ge, fun _ => hstays⟩
  rw [StoreWrite.apply_eq] at happly
  obtain ⟨versions, hwrite, rfl⟩ := applyAt_eq_ok happly
  obtain ⟨new, rfl, htriple, hcurrent⟩ := happends.onVersions hwrite
  have htenant : new.header.tenantId = write.target.tenantId := congrArg (·.tenantId) htriple
  -- The version that ends adds to the weight when it is another tenant's, and so does the new one.
  have hend : weight (othersOf tenantId ((store.versionsAt write.target.key).modifyLastWhere
      write.ends (·.endAt write.epoch))) = store.weightAt tenantId write.target.key ∧
        (∀ record, (store.versionsAt write.target.key).findLast? write.ends = some record →
          record.header.tenantId = tenantId) ∨
      weight (othersOf tenantId ((store.versionsAt write.target.key).modifyLastWhere
        write.ends (·.endAt write.epoch))) = store.weightAt tenantId write.target.key + 1 := by
    cases hfind : (store.versionsAt write.target.key).findLast? write.ends with
    | none =>
      refine .inl ⟨?_, fun record hrecord => by cases hrecord⟩
      rw [List.modifyLastWhere_of_forall_not _ (List.findLast?_eq_none.1 hfind)]
      rfl
    | some record =>
      by_cases hown : record.header.tenantId = tenantId
      · have hall : ∀ found, (store.versionsAt write.target.key).findLast? write.ends = some found →
            found.header.tenantId = tenantId := by
          intro found hfound
          obtain rfl := Option.some.inj (hfind.symm.trans hfound)
          exact hown
        refine .inl ⟨congrArg weight (othersOf_modify hall _), fun found hfound => ?_⟩
        obtain rfl := Option.some.inj hfound
        exact hown
      · exact .inr (weight_modify (fun _ => StoreWrite.isCurrent_of_ends) hfind hown _)
  have hnew : weight (othersOf tenantId [new]) =
      if write.target.tenantId = tenantId then 0 else 1 := by
    split_ifs with hown
    · rw [othersOf_cons_of_eq (htenant.trans hown)]
      rfl
    · rw [othersOf_cons_of_ne (htenant ▸ hown), weight_cons, hcurrent]
      rfl
  have hmore : store.weightAt tenantId write.target.key < weight (othersOf tenantId
      ((store.versionsAt write.target.key).modifyLastWhere write.ends (·.endAt write.epoch) ++
        [new])) := by
    rw [othersOf_append, weight_append, hnew]
    rcases hend with ⟨hsame, hown⟩ | hheavier
    · have hother : write.target.tenantId ≠ tenantId := fun htarget => hstays ⟨htarget, hown⟩
      rw [hsame, if_neg hother]
      omega
    · omega
  constructor
  · intro key
    rw [weightAt, weightAt, versionsAt_set]
    split_ifs with hkey
    · subst hkey
      exact hmore.le
    · exact le_rfl
  · intro heq
    rw [weightAt, versionsAt_set, if_pos rfl] at heq
    exact absurd heq hmore.ne'

/-- **One write keeps the other tenants** just when it stays within its own. -/
theorem keepsOthers_apply_iff (happends : write.Appends)
    (happly : write.apply sourceHash store = .ok store') :
    KeepsOthers tenantId store store' ↔ StaysWithin tenantId store write.ends write.target :=
  ⟨fun h => (weightAt_apply happends happly).2 (h.weightAt _),
    fun h => h.keepsOthers happends happly⟩

/-! ### Lists of writes -/

/-- After a write that stays within the tenant, the version under its key that the next write ends
is the tenant's own. -/
theorem StaysWithin.apply {next : StoreWrite}
    (h : StaysWithin tenantId store write.ends write.target) (happends : write.Appends)
    (hnext : next.ends = StoredRecord.isCurrent)
    (happly : write.apply sourceHash store = .ok store')
    (hstays : StaysWithin tenantId store next.ends next.target) :
    StaysWithin tenantId store' next.ends next.target := by
  rw [StoreWrite.apply_eq] at happly
  obtain ⟨versions, hwrite, rfl⟩ := applyAt_eq_ok happly
  obtain ⟨new, rfl, htriple, hcurrent⟩ := happends.onVersions hwrite
  refine ⟨hstays.1, fun record hfind => ?_⟩
  rw [versionsAt_set] at hfind
  split_ifs at hfind with hkey
  · rw [hnext, List.findLast?_append_singleton, if_pos hcurrent] at hfind
    obtain rfl := Option.some.inj hfind
    exact (congrArg (·.tenantId) htriple).trans h.1
  · exact hstays.2 record hfind

/-- The other tenants do not get lighter along a list of writes. -/
theorem weightAt_applyAll {writes : List StoreWrite} (happends : ∀ write ∈ writes, write.Appends)
    (h : store.applyAll sourceHash writes = .ok store') (key : String) :
    store.weightAt tenantId key ≤ store'.weightAt tenantId key := by
  refine Except.foldlM_invariant (I := fun store₁ =>
    store.weightAt tenantId key ≤ store₁.weightAt tenantId key) h le_rfl ?_
  intro store₁ write store₂ hwrite hle happly
  exact hle.trans ((weightAt_apply (happends write hwrite) happly).1 key)

/-- **Writes keep the other tenants** just when each of them stays within its own. -/
theorem keepsOthers_iff {writes : List StoreWrite} (happends : ∀ write ∈ writes, write.Appends)
    (hends : ∀ write ∈ writes, write.ends = StoredRecord.isCurrent)
    (h : store.applyAll sourceHash writes = .ok store') :
    KeepsOthers tenantId store store' ↔ ∀ write ∈ writes,
    StaysWithin tenantId store write.ends write.target := by
  induction writes generalizing store with
  | nil =>
    obtain rfl := Except.ok.inj h
    exact iff_of_true (KeepsOthers.refl _ _) (by simp)
  | cons write writes ih =>
    rw [applyAll, List.foldlM_cons, Except.bind_eq_ok_iff] at h
    obtain ⟨store₁, happly, hrest⟩ := h
    have happend := happends write List.mem_cons_self
    have happends' : ∀ next ∈ writes, next.Appends :=
      fun w hw => happends w (List.mem_cons_of_mem _ hw)
    have hends' : ∀ next ∈ writes, next.ends = StoredRecord.isCurrent :=
      fun w hw => hends w (List.mem_cons_of_mem _ hw)
    have hiff := ih happends' hends' hrest
    constructor
    · intro hkeeps
      -- The weight is the same at the end, so it is after the first write.
      have hfirst : StaysWithin tenantId store write.ends write.target := by
        refine (weightAt_apply happend happly).2
          (le_antisymm ?_ ((weightAt_apply happend happly).1 _))
        exact (weightAt_applyAll happends' hrest _).trans (hkeeps.weightAt _).le
      have hkeeps₁ := hfirst.keepsOthers happend happly
      have hrest₁ := hiff.1 fun key => (hkeeps key).trans (hkeeps₁ key).symm
      intro next hnext
      rcases List.mem_cons.1 hnext with rfl | hnext
      · exact hfirst
      · refine ⟨(hrest₁ next hnext).1, fun record hfind => ?_⟩
        by_cases hkey : write.target.key = next.target.key
        · -- Two writes under one key end the same version of the first store.
          rw [hends' next hnext, ← hends write List.mem_cons_self, ← hkey] at hfind
          exact hfirst.2 record hfind
        · refine (hrest₁ next hnext).2 record ?_
          rw [StoreWrite.apply_eq] at happly
          obtain ⟨versions, -, rfl⟩ := applyAt_eq_ok happly
          rw [versionsAt_set, if_neg hkey]
          exact hfind
    · intro hstays
      have hfirst := hstays write List.mem_cons_self
      refine (hfirst.keepsOthers happend happly).trans (hiff.2 fun next hnext => ?_)
      exact hfirst.apply happend (hends' next hnext) happly
        (hstays next (List.mem_cons_of_mem _ hnext))

end RecordStore

end TraceDB
