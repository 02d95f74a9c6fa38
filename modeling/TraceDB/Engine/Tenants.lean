import TraceDB.Engine.Writes

/-!
# Operations and the records of other tenants

`Synced.keepsOthers_run_iff` : an operation that is carried out keeps the records of the other
tenants just when every record that it names stays within the one tenant.
-/

namespace TraceDB

variable {F : EngineFormat}

open RecordStore

/-- Writes of one record, or writes that end current versions. -/
theorem WritesTo.keepsOthers_iff {db : Db} {ends : StoredRecord → Bool}
    {targets : List RecordTriple} {delta : RecordStoreDelta}
    (h : WritesTo F db (fun write => write.Appends ∧ write.ends = ends) targets delta)
    (hends : ends = StoredRecord.isCurrent ∨ ∃ target, targets = [target]) (tenantId : String) :
    KeepsOthers tenantId db.store (db.store.applyDelta delta) ↔
      ∀ target ∈ targets, StaysWithin tenantId db.store ends target := by
  obtain ⟨writes, rfl, hwrites, hplan⟩ := h
  have happly := applyAll_of_planAll hplan
  rw [applyDelta_empty] at happly
  rcases hends with rfl | ⟨target, hsingle⟩
  · rw [RecordStore.keepsOthers_iff (fun w hw => (hwrites w hw).1)
      (fun w hw => (hwrites w hw).2) happly, List.forall_mem_map]
    exact forall₂_congr fun write hwrite => by rw [(hwrites write hwrite).2]
  · obtain ⟨write, rfl, rfl⟩ := List.map_eq_singleton_iff.1 hsingle
    obtain ⟨happends, rfl⟩ := hwrites write (List.mem_singleton_self _)
    have hone : write.apply (sourceHash F) db.store = .ok (db.store.applyDelta delta) := by
      rw [applyAll, List.foldlM_cons, Except.bind_eq_ok_iff] at happly
      obtain ⟨store, hwrite, hrest⟩ := happly
      obtain rfl := Except.ok.inj hrest
      exact hwrite
    rw [keepsOthers_apply_iff happends hone]
    simp

namespace Synced

variable {db db' : Db} {entries : List WalEntry} {op : Op}

/-- **An operation that is carried out keeps the other tenants** just when every record that it
names stays within its own. -/
theorem keepsOthers_run_iff (h : Synced F db entries) (happends : op.Appends) {reply : Reply}
    (hrun : db.run F op = (.ok reply, db')) (tenantId : String) :
    KeepsOthers tenantId db.store db'.store ↔
      ∀ target ∈ op.targets, StaysWithin tenantId db.store op.ends target := by
  rcases h.committed_of_run hrun with ⟨plan, hplan, rfl⟩ | ⟨rfl, htargets, -⟩
  · obtain ⟨writes, htargets, hwrites, hdelta⟩ := (plan_spec hplan).1
    refine WritesTo.keepsOthers_iff ⟨writes, htargets, fun write hwrite => ?_, hdelta⟩
      op.ends_or_single tenantId
    exact ⟨(hwrites write hwrite).appends happends, (hwrites write hwrite).ends⟩
  · rw [htargets]
    exact iff_of_true (KeepsOthers.refl _ _) (by simp)

end Synced

end TraceDB
