import TraceDB.Keeper.Service

/-!
# Failing writes of the keeper

A commit changes the service before it writes the file, and nothing takes the change back when the
write fails.  The request is known from then on: sent again, it is acknowledged from the map, and
the file is not written.

* `Keeper.Durable` : acknowledged requests are in the log of a service opened on the files, and a
  failed commit leaves the service alone.
* `keeper_durable_iff` : this holds for a run just when every write of a new commit succeeds, and no
  request is taken for another one under the same key.
* `retry_after_failed_rename` : a run in which an acknowledged request is lost.
-/

namespace TraceDB

namespace Keeper

/-- In the run of the steps, every request that was acknowledged is in the log of a service that is
opened on the files, under the epoch of the answer; and a commit that returns an error leaves the
service as it was. -/
structure Durable (F : KeeperFormat) (path : KeeperPath) (steps : List KeeperStep) : Prop where
  present : ∀ done rest, steps = done ++ rest → ∀ request ack,
    (request, .ok ack) ∈ ((start path).run F path done).1 →
      ∃ service, BranchWalService.open F path ((start path).run F path done).2.files = .ok service ∧
        ∃ entry ∈ service.commitLog, entry.branchId = request.branchId ∧
          entry.idempotencyKey = request.idempotencyKey ∧ entry.epoch = ack.epoch
  unchanged : ∀ done request ops rest, steps = done ++ .commit request ops :: rest →
    ∀ e service files, ((start path).run F path done).2.service.commit F request ops
        ((start path).run F path done).2.files = (.error e, service, files) →
      service = ((start path).run F path done).2.service

/-- A step that neither fails to write a new commit, nor takes a request for another one. -/
def Sound (path : KeeperPath) (service : BranchWalService) : KeeperStep → Prop
  | .commit request ops =>
    match service.idempotent[request.key]? with
    | some ack => ack.branchId = request.branchId ∧ ack.idempotencyKey = request.idempotencyKey
    | none => ops.fails path = false
  | .reopen => True

variable {F : KeeperFormat} {path : KeeperPath} {returned : List KeeperReturn} {keeper : Keeper}

/-- Every answer names the branch and key of its request. -/
def Named (returned : List KeeperReturn) : Prop :=
  ∀ request ack, (request, .ok ack) ∈ returned →
    ack.branchId = request.branchId ∧ ack.idempotencyKey = request.idempotencyKey

theorem Inv.step_of_sound (h : Inv F path returned keeper) {step : KeeperStep}
    (hsound : Sound path keeper.service step) :
    Inv F path (returned ++ (keeper.step F path step).1) (keeper.step F path step).2 := by
  refine h.step ?_
  rintro request ops rfl hnone
  rw [Sound, hnone] at hsound
  exact hsound

theorem Named.step_of_sound (hnamed : Named returned) (h : Inv F path returned keeper)
    {step : KeeperStep} (hsound : Sound path keeper.service step) :
    Named (returned ++ (keeper.step F path step).1) := by
  intro request ack hmem
  rcases List.mem_append.1 hmem with hold | hnew
  · exact hnamed request ack hold
  · cases step with
    | reopen =>
      rw [h.reopen] at hnew
      exact absurd hnew List.not_mem_nil
    | commit r ops =>
      rcases h.step_commit_cases r ops with
        ⟨known, hknown, heq⟩ | ⟨-, -, files, -, heq⟩ | ⟨-, -, e, files, heq⟩
      · rw [heq] at hnew
        obtain ⟨rfl, hack⟩ := Prod.mk.inj (List.mem_singleton.1 hnew)
        obtain rfl := Except.ok.inj hack
        rw [Sound, hknown] at hsound
        exact hsound
      · rw [heq] at hnew
        obtain ⟨rfl, hack⟩ := Prod.mk.inj (List.mem_singleton.1 hnew)
        obtain rfl := Except.ok.inj hack
        exact ⟨rfl, rfl⟩
      · rw [heq] at hnew
        cases (Prod.mk.inj (List.mem_singleton.1 hnew)).2

/-- The invariant over a run of sound steps. -/
theorem inv_of_sound {steps : List KeeperStep}
    (h : ∀ done step rest, steps = done ++ step :: rest →
      Sound path ((start path).run F path done).2.service step) :
    Inv F path ((start path).run F path steps).1 ((start path).run F path steps).2 ∧
      Named ((start path).run F path steps).1 := by
  induction steps using List.reverseRecOn with
  | nil => exact ⟨inv_start, fun _ _ hmem => absurd hmem List.not_mem_nil⟩
  | append_singleton steps step ih =>
    obtain ⟨hinv, hnamed⟩ := ih fun done s rest heq =>
      h done s (rest ++ [step]) (by rw [heq, List.append_assoc]; rfl)
    have hsound := h steps step [] rfl
    rw [run_snoc]
    exact ⟨hinv.step_of_sound hsound, hnamed.step_of_sound hinv hsound⟩

/-- Acknowledged requests are in the log. -/
theorem Inv.present (h : Inv F path returned keeper) (hnamed : Named returned)
    {request : CommitRequest} {ack : CommitAck} (hmem : (request, .ok ack) ∈ returned) :
    ∃ entry ∈ keeper.service.commitLog, entry.branchId = request.branchId ∧
      entry.idempotencyKey = request.idempotencyKey ∧ entry.epoch = ack.epoch := by
  obtain ⟨ack', hack', hget⟩ := h.answered request _ hmem
  obtain rfl := Except.ok.inj hack'
  obtain ⟨entry, hentry, -, rfl⟩ := (h.filed _ _).1 hget
  obtain ⟨hb, hi⟩ := hnamed request _ hmem
  exact ⟨entry, hentry, hb, hi, rfl⟩

/-- A run that is durable takes a sound step next. -/
theorem Durable.sound {steps : List KeeperStep} {step : KeeperStep}
    (h : Durable F path (steps ++ [step]))
    (hinv : Inv F path ((start path).run F path steps).1 ((start path).run F path steps).2) :
    Sound path ((start path).run F path steps).2.service step := by
  cases step with
  | reopen => trivial
  | commit request ops =>
    rcases hinv.step_commit_cases request ops with
      ⟨ack, hack, heq⟩ | ⟨hnone, hwrites, -⟩ | ⟨hnone, -, e, files, heq⟩
    · -- The entry of the request is the one that its key is filed under.
      rw [Sound, hack]
      have hmem : (request, .ok ack) ∈
          ((start path).run F path (steps ++ [.commit request ops])).1 := by
        rw [run_snoc, heq]
        exact List.mem_append_right _ (List.mem_singleton_self _)
      obtain ⟨service, hopen, entry, hentry, hb, hi, -⟩ :=
        h.present _ [] (List.append_nil _).symm request ack hmem
      rw [run_snoc, heq] at hopen
      obtain rfl := Except.ok.inj (hinv.file.symm.trans hopen)
      have hkey : entry.key = request.key := by
        rw [DurableCommit.key, CommitRequest.key, hb, hi]
      have hfiled := (hinv.filed request.key entry.ack).2 ⟨entry, hentry, hkey, rfl⟩
      rw [hack] at hfiled
      obtain rfl := Option.some.inj hfiled
      exact ⟨hb, hi⟩
    · rw [Sound, hnone]
      exact hwrites
    · -- A commit that could not be written has changed the service.
      have hcommit : ((start path).run F path steps).2.service.commit F request ops
          ((start path).run F path steps).2.files =
            (.error e, ((start path).run F path steps).2.service.logged request, files) := by
        simp only [Keeper.step] at heq
        obtain ⟨hreturn, hkeeper⟩ := Prod.mk.inj heq
        obtain ⟨hservice, hfiles⟩ := Keeper.mk.inj hkeeper
        have hresult := (Prod.mk.inj (List.singleton_inj.1 hreturn)).2
        exact Prod.ext hresult (Prod.ext hservice hfiles)
      have hsame := h.unchanged steps request ops [] rfl e _ files hcommit
      have hlength := congrArg (fun service => service.commitLog.length) hsame
      simp [BranchWalService.logged] at hlength

theorem Durable.take {steps rest : List KeeperStep} (h : Durable F path (steps ++ rest)) :
    Durable F path steps where
  present done later heq := h.present done (later ++ rest) (by rw [heq, List.append_assoc])
  unchanged done request ops later heq := h.unchanged done request ops (later ++ rest)
    (by rw [heq, List.append_assoc]; rfl)

end Keeper

/-- **The keeper is durable just when its steps are sound.**  For every run of commits, with write
failures at any stages of any calls, and of reopenings: every acknowledged request is in the log of
a service opened on the path and every failed commit leaves the service alone, if and only if no
commit under a new key fails to write the file, and no request finds its key taken by another branch
and key. -/
theorem keeper_durable_iff (F : KeeperFormat) (path : KeeperPath) (steps : List KeeperStep) :
    Keeper.Durable F path steps ↔ ∀ done step rest, steps = done ++ step :: rest →
      Keeper.Sound path ((Keeper.start path).run F path done).2.service step := by
  constructor
  · intro h
    induction steps using List.reverseRecOn with
    | nil => exact fun done step rest heq => by simp at heq
    | append_singleton steps last ih =>
      have hearlier := ih h.take
      have hlast := h.sound (Keeper.inv_of_sound hearlier).1
      intro done step rest heq
      rcases List.eq_nil_or_concat rest with rfl | ⟨init, final, rfl⟩
      · obtain ⟨rfl, hstep⟩ := List.append_inj' heq rfl
        obtain rfl := List.singleton_inj.1 hstep
        exact hlast
      · rw [List.concat_eq_append, ← List.cons_append, ← List.append_assoc] at heq
        exact hearlier done step init (List.append_inj' heq rfl).1
  · intro h
    have hprefix : ∀ done rest, steps = done ++ rest →
        Keeper.Inv F path ((Keeper.start path).run F path done).1
            ((Keeper.start path).run F path done).2 ∧
          Keeper.Named ((Keeper.start path).run F path done).1 :=
      fun done rest heq => Keeper.inv_of_sound fun before step after hdone =>
        h before step (after ++ rest) (by rw [heq, hdone, List.append_assoc]; rfl)
    refine ⟨fun done rest heq request ack hmem => ?_, fun done request ops rest heq e service files
      hcommit => ?_⟩
    · obtain ⟨hinv, hnamed⟩ := hprefix done rest heq
      exact ⟨_, hinv.file, hinv.present hnamed hmem⟩
    · obtain ⟨hinv, -⟩ := hprefix done _ heq
      have hsound := h done (.commit request ops) rest heq
      rcases hinv.step_commit_cases request ops with
        ⟨ack, hack, hstep⟩ | ⟨-, -, _, -, hstep⟩ | ⟨hnone, hfails, -⟩
      · simp only [Keeper.step, hcommit] at hstep
        cases (Prod.mk.inj (List.singleton_inj.1 (Prod.mk.inj hstep).1)).2
      · simp only [Keeper.step, hcommit] at hstep
        cases (Prod.mk.inj (List.singleton_inj.1 (Prod.mk.inj hstep).1)).2
      · rw [Keeper.Sound, hnone] at hsound
        rw [hsound] at hfails
        cases hfails

/-! ### A lost commit -/

/-- File operations whose rename fails. -/
def failedRename :
    DurableWriteOps := { DurableWriteOps.succeed with rename := some "No space left" }

/-- A request whose first commit fails, and which is then sent again. -/
def retriedSteps : List KeeperStep :=
  [.commit ⟨"main", "k", "v"⟩ failedRename, .commit ⟨"main", "k", "v"⟩ .succeed]

/-- **A retry after a failed rename**: the request is acknowledged, and a service opened on the path
has an empty log. -/
theorem retry_after_failed_rename :
    let run := (Keeper.start samplePath).run .reference samplePath retriedSteps
    run.1 = [(⟨"main", "k", "v"⟩, .error "No space left"),
        (⟨"main", "k", "v"⟩, .ok ⟨"main", 1, "k"⟩)] ∧
      (BranchWalService.open .reference samplePath run.2.files).toOption.map (·.commitLog) =
        some [] ∧
      ¬ Keeper.Durable .reference samplePath retriedSteps := by
  intro run
  have hreturned : run.1 = [(⟨"main", "k", "v"⟩, .error "No space left"),
      (⟨"main", "k", "v"⟩, .ok ⟨"main", 1, "k"⟩)] := by decide +kernel
  have hlog : (BranchWalService.open .reference samplePath run.2.files).toOption.map
      (·.commitLog) = some [] := by decide +kernel
  refine ⟨hreturned, hlog, fun hdurable => ?_⟩
  have hmem : ((⟨"main", "k", "v"⟩, .ok ⟨"main", 1, "k"⟩) : KeeperReturn) ∈ run.1 := by
    rw [hreturned]
    exact List.mem_cons_of_mem _ (List.mem_singleton_self _)
  obtain ⟨service, hopen, entry, hentry, -⟩ :=
    hdurable.present retriedSteps [] (List.append_nil _).symm _ _ hmem
  rw [show BranchWalService.open .reference samplePath run.2.files = .ok service from hopen] at hlog
  rw [show service.commitLog = [] from Option.some.inj hlog] at hentry
  exact absurd hentry List.not_mem_nil

end TraceDB
