import TraceDB.Data.Fencing
import TraceDB.Vault.Faithful

/-!
# Clones of a handle

A `TraceDb` can be cloned: the clones share the directory, the engine lock and the end of the log
(`Wal::tail`), and each has its manifest and its store in memory.  A clone that is behind the
directory cannot open it again, because of the lock that it holds itself.

* `sharedCalls` : the calls, on what the clones share and what one has for itself.
* `Vault.call_behind` : the calls of a clone that is behind are refused, but for one that finds no
  job to lease.
* `Vault.clones_linear` : in every order of calls on clones, the directory is that of a single
  handle.

`publish_segment_with_parent_generation` with the generation of another clone, and `checkpoint`, are
left out: they take the manifest of the directory.
-/

namespace TraceDB

variable {S : Type} {A : ArtifactFormat S}

/-- What the clones of a handle share: the files, and the end of the log. -/
structure VaultFiles (S : Type) where
  disk : Disk
  artifacts : Std.ExtTreeMap String (IndexArtifact S) compare
  walTail : WalTail

/-- What a clone has for itself. -/
structure VaultMemory where
  manifest : Manifest
  store : RecordStore
  walTornTail : Option TornWalTail
  idempotencyReceipts : List IdempotencyReceipt
  jobCatalog : JobCatalog
  lastRecoveryTornTail : Option TornWalTail
  indexes : List IndexEntry

namespace Vault

variable (vault : Vault S)

def shared : VaultFiles S := ⟨vault.db.disk, vault.artifacts, vault.db.walTail⟩

def inMemory : VaultMemory where
  manifest := vault.db.manifest
  store := vault.db.store
  walTornTail := vault.db.walTornTail
  idempotencyReceipts := vault.db.idempotencyReceipts
  jobCatalog := vault.db.jobCatalog
  lastRecoveryTornTail := vault.db.lastRecoveryTornTail
  indexes := vault.indexes

end Vault

/-- A clone at a directory. -/
def VaultMemory.at (memory : VaultMemory) (files : VaultFiles S) : Vault S where
  db :=
    { disk := files.disk
      manifest := memory.manifest
      store := memory.store
      walTail := files.walTail
      walTornTail := memory.walTornTail
      idempotencyReceipts := memory.idempotencyReceipts
      jobCatalog := memory.jobCatalog
      lastRecoveryTornTail := memory.lastRecoveryTornTail }
  artifacts := files.artifacts
  indexes := memory.indexes

theorem Vault.at_shared (vault : Vault S) : vault.inMemory.at vault.shared = vault := rfl

/-! ### Replies -/

/-- What a call hands back. -/
inductive VaultReply where
  | reply (reply : Reply)
  | published
  | removed (count : ℕ)

/-- `lease_job`. -/
def Op.isLease : Op → Bool
  | .leaseJob .. => true
  | _ => false

namespace VaultCall

variable (A)

/-- The result of a call. -/
def result (vault : Vault S) : VaultCall → Result VaultReply
  | .run op => .reply <$> (vault.db.run A.toEngineFormat op).1
  | .publish segmentId => (fun _ => .published) <$> (vault.publishSegment A segmentId.id).1
  | .compact => (fun _ => .published) <$> (vault.compact A).1
  | .vacuum => .removed <$> (vault.vacuum A).1

/-- What a call acknowledges.  That there is no job to lease is no acknowledgement: a clone that is
behind may say so as well, by its own catalog. -/
def acknowledged (vault : Vault S) (call : VaultCall) : Option VaultReply :=
  match call.result A vault with
  | .ok (.reply .noJob) => none
  | .ok reply => some reply
  | .error _ => none

/-- The call returns an error, or is a `lease_job` that finds no job. -/
def Refused (vault : Vault S) (call : VaultCall) : Prop :=
  (∃ e, call.result A vault = .error e) ∨
    ∃ op, call = .run op ∧ op.isLease = true ∧ call.result A vault = .ok (.reply .noJob)

end VaultCall

/-- The acknowledgements of calls one after the other. -/
def Vault.acknowledgements (A : ArtifactFormat S) (vault : Vault S) :
    List VaultCall → List (VaultCall × VaultReply)
  | [] => []
  | call :: calls =>
    ((call.acknowledged A vault).map fun reply => (call, reply)).toList ++
      (call.after A vault).acknowledgements A calls

/-- The calls on clones. -/
def sharedCalls (A : ArtifactFormat S) :
    SharedCalls (VaultFiles S) VaultMemory VaultCall VaultReply where
  call files memory call :=
    (call.acknowledged A (memory.at files), (call.after A (memory.at files)).shared,
      (call.after A (memory.at files)).inMemory)

/-- A single clone is a handle. -/
theorem alone_sharedCalls (vault : Vault S) (calls : List VaultCall) :
    Copies.alone (sharedCalls A) vault.shared vault.inMemory calls =
      ⟨(vault.afterCalls A calls).shared, [(vault.afterCalls A calls).inMemory],
        vault.acknowledgements A calls⟩ := by
  have hfrom : ∀ (calls : List VaultCall) (vault : Vault S) (log : List (VaultCall × VaultReply)),
      (calls.map (CopyEvent.call 0)).foldl (Copies.next (sharedCalls A))
      ⟨vault.shared, [vault.inMemory], log⟩ =
        ⟨(vault.afterCalls A calls).shared, [(vault.afterCalls A calls).inMemory],
          log ++ vault.acknowledgements A calls⟩ := by
    intro calls
    induction calls with
    | nil =>
      intro vault log
      rw [Vault.acknowledgements, List.append_nil]
      rfl
    | cons call calls ih =>
      intro vault log
      have hnext : Copies.next (sharedCalls A) ⟨vault.shared, [vault.inMemory], log⟩
          (.call 0 call) =
          ⟨(call.after A vault).shared, [(call.after A vault).inMemory],
            log ++ ((call.acknowledged A vault).map fun reply => (call, reply)).toList⟩ := rfl
      rw [List.map_cons, List.foldl_cons, hnext, ih, Vault.acknowledgements, List.append_assoc]
      rfl
  exact hfrom calls vault []

/-! ### Clones that are behind -/

/-- A handle that is behind its directory is not refreshed. -/
theorem Synced.refresh_behind {F : EngineFormat} {lead db : Db} {entries : List WalEntry}
    (h : Synced F lead entries) (hdisk : db.disk = lead.disk)
    (hbehind : db.manifest.manifestGeneration < lead.manifest.manifestGeneration) :
    ∃ e, db.refreshFromDiskIfStale F = .error e := by
  have hread : readManifest F db.disk = .ok lead.manifest := by
    rw [hdisk]
    exact readManifest_of_manifest h.isSealed h.manifestFile
  rw [Db.refreshFromDiskIfStale, hread, Except.ok_bind]
  cases db.wal.lastCommitEpoch F.toWalFormat with
  | error e => exact ⟨e, rfl⟩
  | ok last =>
    refine ⟨engineLocked db.disk.dir, ?_⟩
    rw [Except.ok_bind]
    simp only [decide_eq_true hbehind, Bool.or_true, if_true]

/-- An operation on a handle that is not refreshed does nothing: it is refused, or finds no job to
lease. -/
theorem Db.run_of_refresh {F : EngineFormat} {db : Db} {e : TraceDbError}
    (h : db.refreshFromDiskIfStale F = .error e) (op : Op) :
    ∃ result, db.run F op = (result, db) ∧
      ∀ reply, result = .ok reply → reply = .noJob ∧ op.isLease = true := by
  have hwrite : ∀ plan, db.write F plan = (.error e, db) := fun plan => by rw [Db.write, h]
  have herror : ∀ (e : TraceDbError) (reply : Reply), (Except.error e : Result Reply) = .ok reply →
      reply = .noJob ∧ op.isLease = true := fun _ _ hok => by cases hok
  cases op with
  | setFeatureStatus invalidation =>
    rw [Db.run, Db.setFeatureStatus]
    split_ifs with hblank
    · exact ⟨_, rfl, herror _⟩
    · exact ⟨_, hwrite _, herror _⟩
  | leaseJob workerId kind nowMs leaseMs =>
    rw [Db.run, Db.leaseJob]
    rcases db.jobCatalog.leaseNextAt workerId kind nowMs leaseMs with ⟨planned, _ | job⟩
    · exact ⟨_, rfl, fun reply hreply => ⟨(Except.ok.inj hreply).symm, rfl⟩⟩
    · exact ⟨_, hwrite _, herror _⟩
  | heartbeatJob jobId token nowMs leaseMs =>
    rw [Db.run, Db.heartbeatJob]
    rcases db.jobCatalog.heartbeat jobId token nowMs leaseMs with error | ⟨planned, job⟩
    · exact ⟨_, rfl, herror _⟩
    · exact ⟨_, hwrite _, herror _⟩
  | completeJob jobId token =>
    rw [Db.run, Db.completeJob]
    rcases db.jobCatalog.complete jobId (some token) with error | ⟨planned, job⟩
    · exact ⟨_, rfl, herror _⟩
    · exact ⟨_, hwrite _, herror _⟩
  | failJob jobId token error permanent nowMs =>
    rw [Db.run, Db.failJob]
    rcases db.jobCatalog.fail jobId token error permanent nowMs with error | ⟨planned, job⟩
    · exact ⟨_, rfl, herror _⟩
    · exact ⟨_, hwrite _, herror _⟩
  | applySchema schema receipt | insert input receipt | put input receipt | putBatch records receipt
  | patch input receipt | delete deletion receipt => exact ⟨_, hwrite _, herror _⟩
  | recordIdempotencyReceipt receipt =>
    exact ⟨_, hwrite fun db => .ok (db.planReceipt receipt), herror _⟩
  | enqueueJob kind target key =>
    rw [Db.run, Db.enqueueJob]
    rcases db.jobCatalog.enqueue kind target key with ⟨planned, job⟩
    exact ⟨_, hwrite _, herror _⟩

namespace Vault

variable {lead vault : Vault S} {entries : List WalEntry}

/-- A publication that builds on another generation than that of the directory is refused. -/
theorem publishSegment_behind (h : Synced A.toEngineFormat lead.db entries)
    (hdisk : vault.db.disk = lead.db.disk) {generation : ℕ}
    (hne : generation ≠ lead.db.manifest.manifestGeneration) (segmentId : String) :
    vault.publishSegmentWithParentGeneration A segmentId generation =
        (.error (generationMismatch lead.db.manifest.manifestGeneration generation), vault) ∧
      vault.publishCompactedSegment A segmentId generation =
        (.error (generationMismatch lead.db.manifest.manifestGeneration generation), vault) := by
  have hread : readManifest A.toEngineFormat vault.db.disk = .ok lead.db.manifest := by
    rw [hdisk]
    exact readManifest_of_manifest h.isSealed h.manifestFile
  rw [publishSegmentWithParentGeneration, publishCompactedSegment, hread]
  dsimp only
  rw [if_pos hne, if_pos hne]
  exact ⟨rfl, rfl⟩

/-- A call on a clone that is behind does nothing and acknowledges nothing: it is refused, or is a
`lease_job` that finds no job in the catalog of the clone. -/
theorem call_behind (h : Synced A.toEngineFormat lead.db entries)
    (hdisk : vault.db.disk = lead.db.disk)
    (hbehind : vault.db.manifest.manifestGeneration < lead.db.manifest.manifestGeneration)
    (call : VaultCall) :
    call.after A vault = vault ∧ call.acknowledged A vault = none ∧ call.Refused A vault := by
  obtain ⟨e, hrefresh⟩ := h.refresh_behind hdisk hbehind
  cases call with
  | run op =>
    obtain ⟨result, hrun, hreply⟩ := Db.run_of_refresh hrefresh op
    rw [VaultCall.after, VaultCall.acknowledged, VaultCall.Refused, VaultCall.result, hrun]
    cases result with
    | error e => exact ⟨rfl, rfl, .inl ⟨e, rfl⟩⟩
    | ok reply =>
      obtain ⟨rfl, hlease⟩ := hreply reply rfl
      exact ⟨rfl, rfl, .inr ⟨op, rfl, hlease, rfl⟩⟩
  | publish segmentId =>
    have hout := (publishSegment_behind (A := A) h hdisk hbehind.ne segmentId.id).1
    simp only [VaultCall.after, VaultCall.acknowledged, VaultCall.Refused, VaultCall.result,
      publishSegment, hout]
    exact ⟨trivial, rfl, .inl ⟨_, rfl⟩⟩
  | compact =>
    have hout := (publishSegment_behind (A := A) h hdisk hbehind.ne vault.compactId).2
    simp only [VaultCall.after, VaultCall.acknowledged, VaultCall.Refused, VaultCall.result,
      compact, hout]
    exact ⟨trivial, rfl, .inl ⟨_, rfl⟩⟩
  | vacuum =>
    simp only [VaultCall.after, VaultCall.acknowledged, VaultCall.Refused, VaultCall.result,
      vacuum, hrefresh]
    exact ⟨trivial, rfl, .inl ⟨_, rfl⟩⟩

/-! ### Generations -/

/-- A publication leaves the memory of its handle, or takes it to the next generation. -/
theorem publishObject_later (h : Synced A.toEngineFormat vault.db entries) (segmentId : String)
    (generation : ℕ) (keeps : String → Bool) :
    (vault.publishObject A segmentId generation vault.db.manifest keeps).2.inMemory =
      vault.inMemory ∨
      vault.db.manifest.manifestGeneration <
        (vault.publishObject A segmentId generation vault.db.manifest
          keeps).2.db.manifest.manifestGeneration := by
  obtain ⟨written, hwrote, ⟨e, hout⟩ | ⟨object, -, hout⟩⟩ :=
    publishObject_cases h segmentId generation keeps
  · rw [hout]
    rcases hwrote with rfl | ⟨-, rfl⟩
    · exact .inl rfl
    · exact .inl rfl
  · rw [hout]
    have hgeneration : (written.withPublication A object keeps).db.manifest.manifestGeneration =
        written.db.manifest.manifestGeneration + 1 := rfl
    rw [hgeneration, hwrote.manifest]
    exact .inr (Nat.lt_succ_self _)

/-- A call leaves the memory of its handle, or takes it to a later generation. -/
theorem call_later (h : Synced A.toEngineFormat vault.db entries) (call : VaultCall) :
    (call.after A vault).inMemory = vault.inMemory ∨
      vault.db.manifest.manifestGeneration <
        (call.after A vault).db.manifest.manifestGeneration := by
  cases call with
  | run op =>
    rw [VaultCall.after]
    rcases h.run_cases op with hsame | ⟨plan, -, -, hrun, -⟩
    · rw [hsame]
      exact .inl rfl
    · rw [hrun]
      exact .inr (Nat.lt_succ_self _)
  | publish segmentId =>
    rw [VaultCall.after]
    by_cases hknown : ∃ segment ∈ vault.db.manifest.segments, segment.segmentId = segmentId.id
    · rw [publishSegment, publishSegment_known h hknown]
      exact .inl rfl
    · push Not at hknown
      rw [publishSegment_new h hknown]
      exact publishObject_later h _ _ _
  | compact =>
    rw [VaultCall.after]
    by_cases hknown : ∃ segment ∈ vault.db.manifest.segments, segment.segmentId = vault.compactId
    · obtain ⟨e, hout⟩ := compact_known h hknown
      rw [hout]
      exact .inl rfl
    · push Not at hknown
      rw [compact_new h hknown]
      exact publishObject_later h _ _ _
  | vacuum =>
    rw [VaultCall.after, vacuum_eq h]
    exact .inl rfl

end Vault

/-- Clones are told apart by the generation of their manifest. -/
theorem fenced_sharedCalls : Fenced (sharedCalls A) (fun files memory => (memory.at files).Sound A)
    fun memory => memory.manifest.manifestGeneration where
  current call h := h.call call
  later {files memory} call h := by
    obtain ⟨entries, hsync⟩ := h.synced
    exact Vault.call_later hsync call
  refused {files memory lead} call h hbehind := by
    obtain ⟨entries, hsync⟩ := h.synced
    have hdisk : (memory.at files).db.disk = (lead.at files).db.disk := rfl
    have hcall := Vault.call_behind hsync hdisk hbehind call
    show (call.acknowledged A (memory.at files), (call.after A (memory.at files)).shared,
      (call.after A (memory.at files)).inMemory) = _
    rw [hcall.1, hcall.2.1]
    rfl

/-- **Clones lose no update.**  However calls on the clones of a handle follow each other, the
directory and all that was acknowledged are those of a single handle that makes some of the calls,
in the same order.  A clone has what that handle has, or is behind it: then its calls change nothing
and acknowledge nothing, and are refused, but for a `lease_job` that finds no job in the catalog of
the clone. -/
theorem Vault.clones_linear {dir : String} {vault : Vault S} (hreach : Vault.Reachable A dir vault)
    {trace : List (CopyEvent VaultCall)}
    {c : Copies (VaultFiles S) VaultMemory VaultCall VaultReply}
    (hrun : Copies.CopyRuns (sharedCalls A) vault.shared vault.inMemory trace c) :
    ∃ calls : List VaultCall, calls.Sublist (CopyEvent.calls trace) ∧
      Vault.Reachable A dir (vault.afterCalls A calls) ∧
      c.files = (vault.afterCalls A calls).shared ∧
      c.acknowledged = vault.acknowledgements A calls ∧
      ∀ memory ∈ c.handles, memory = (vault.afterCalls A calls).inMemory ∨
        memory.manifest.manifestGeneration <
          (vault.afterCalls A calls).db.manifest.manifestGeneration ∧
          ∀ call, (sharedCalls A).call c.files memory call = (none, c.files, memory) ∧
            call.Refused A (memory.at c.files) := by
  obtain ⟨lead, calls, hsub, hfollows⟩ := fenced_sharedCalls.linear hreach.sound hrun
  refine ⟨calls, hsub, hreach.afterCalls calls, ?_, ?_, ?_⟩
  · rw [hfollows.files, alone_sharedCalls]
  · rw [hfollows.acknowledged, alone_sharedCalls]
  · have halone := hfollows.alone
    rw [alone_sharedCalls, List.cons.injEq] at halone
    obtain ⟨rfl, -⟩ := halone
    intro memory hmemory
    rcases hfollows.handles memory hmemory with rfl | hbehind
    · exact .inl rfl
    · obtain ⟨entries, hsync⟩ := hfollows.current.synced
      refine .inr ⟨hbehind, fun call =>
        ⟨fenced_sharedCalls.refused call hfollows.current hbehind, ?_⟩⟩
      exact (Vault.call_behind hsync (rfl : (memory.at c.files).db.disk = _) hbehind call).2.2

/-- Two clones of a handle publish the same document, one after the other. -/
theorem document_cloned :
    ∃ (vault : Vault ℚ) (c : Copies (VaultFiles ℚ) VaultMemory VaultCall VaultReply)
    (calls : List VaultCall),
      vault.db.segmentRecordsForSnapshot.length = 1 ∧
      Copies.CopyRuns (sharedCalls .reference) vault.shared vault.inMemory
        [.copy 0, .call 0 (.publish ⟨"s", by decide⟩), .call 1 (.publish ⟨"t", by decide⟩)] c ∧
      calls.Sublist [.publish ⟨"s", by decide⟩, .publish ⟨"t", by decide⟩] ∧
      c.files = (vault.afterCalls .reference calls).shared ∧
      c.acknowledged = vault.acknowledgements .reference calls := by
  obtain ⟨vault, hreach, -, -, -, hlength⟩ := Vault.exists_plain
  let start : Copies (VaultFiles ℚ) VaultMemory VaultCall VaultReply :=
    .single vault.shared vault.inMemory
  let copied := start.next (sharedCalls .reference) (.copy 0)
  let published := copied.next (sharedCalls .reference) (.call 0 (.publish ⟨"s", by decide⟩))
  have hrun : Copies.CopyRuns (sharedCalls .reference) vault.shared vault.inMemory
      [.copy 0, .call 0 (.publish ⟨"s", by decide⟩), .call 1 (.publish ⟨"t", by decide⟩)]
      (published.next (sharedCalls .reference) (.call 1 (.publish ⟨"t", by decide⟩))) :=
    ((Runs.start.step trivial rfl).step trivial rfl).step trivial rfl
  obtain ⟨calls, hsub, -, hfiles, hacks, -⟩ := Vault.clones_linear hreach hrun
  exact ⟨vault, _, calls, hlength, hrun, hsub, hfiles, hacks⟩

end TraceDB
