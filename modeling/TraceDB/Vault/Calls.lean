import TraceDB.Vault.Sealing
import TraceDB.Engine.Keys

/-!
# Calls on a handle and its artifact files

* `Vault.publishObject_cases` : what a publication does to the files and to the handle.
* `VaultCall` : the calls of a run.
* `Vault.Reachable` : the vaults of any run from an empty directory, with crashes inside every call
  and every checkpoint, and with reopening.
* `Vault.Reachable.sound` : on these the handle is in step with its directory, the versions are
  under their keys, and the segment objects under their ids.
-/

namespace TraceDB

variable {S : Type} {A : ArtifactFormat S}

namespace Vault

variable {vault written : Vault S} {entries : List WalEntry} {segmentId : String} {generation : ℕ}

/-! ### Publications -/

/-- The object of the visible records. -/
def objectFile (vault : Vault S) (segmentId : String) (generation : ℕ) : SegmentObject :=
  SegmentObject.fromRecords segmentId generation vault.db.segmentRecordsForSnapshot

/-- The files of a publication of the visible records: those that were there, or the object besides
them. -/
def Wrote (vault : Vault S) (segmentId : String) (generation : ℕ) (written : Vault S) : Prop :=
  written = vault ∨ vault.db.disk.segments[segmentId]? = none ∧
    written = vault.writeObject (vault.objectFile segmentId generation)

theorem Wrote.manifest (h : vault.Wrote segmentId generation written) :
    written.db.manifest = vault.db.manifest := by
  rcases h with rfl | ⟨-, rfl⟩ <;> rfl

theorem publishSegmentRecords_cases {result : Result (SealedObject S)}
    (h : vault.publishSegmentRecords A segmentId generation vault.db.segmentRecordsForSnapshot =
      (result, written)) :
    vault.Wrote segmentId generation written ∧
      ∀ object, result = .ok object →
      readSegmentObject A written.db.disk segmentId = .ok object := by
  rw [publishSegmentRecords] at h
  cases hfile : vault.db.disk.segments[segmentId]? with
  | some file =>
    rw [hfile] at h
    obtain ⟨rfl, rfl⟩ := Prod.mk.inj h
    exact ⟨.inl rfl, fun object hobject => hobject⟩
  | none =>
    rw [hfile] at h
    dsimp only at h
    split at h
    · obtain ⟨rfl, rfl⟩ := Prod.mk.inj h
      exact ⟨.inl rfl, fun object hobject => by cases hobject⟩
    · obtain ⟨rfl, rfl⟩ := Prod.mk.inj h
      exact ⟨.inr ⟨hfile, rfl⟩, fun object hobject => hobject⟩

/-- The manifest that a publication of an object seals. -/
def manifestWith (A : ArtifactFormat S) (vault : Vault S) (object : SealedObject S)
    (keeps : String → Bool) :
    Manifest :=
  let entries := (object.artifacts A vault.db.manifest.manifestGeneration).map
    (object.indexEntry A vault.db.manifest.manifestGeneration)
  { vault.db.manifest with
    segments := (vault.db.manifest.segments.filter fun segment => keeps segment.segmentId) ++
      [object.manifest]
    indexes := (vault.db.manifest.indexes.filter fun index => keeps index.segmentId) ++
      entries.map (·.toIndexManifest)
    manifestGeneration := vault.db.manifest.manifestGeneration + 1 : Manifest }.linkParent

/-- The handle after the publication of an object whose file is there. -/
def withPublication (A : ArtifactFormat S) (vault : Vault S) (object : SealedObject S)
    (keeps : String → Bool) :
    Vault S where
  db := { vault.db with
    manifest := sealManifest A.toEngineFormat (vault.manifestWith A object keeps)
    disk := { vault.db.disk with
      manifest := some (A.manifestCodec.encode
        (sealManifest A.toEngineFormat (vault.manifestWith A object keeps)))
      manifestBak := some (A.manifestCodec.encode vault.db.manifest)
      manifestTmp := none } }
  artifacts := (vault.writeArtifacts
    (object.artifacts A vault.db.manifest.manifestGeneration)).artifacts
  indexes := (vault.indexes.filter fun index => keeps index.segmentId) ++
    (object.artifacts A vault.db.manifest.manifestGeneration).map
      (object.indexEntry A vault.db.manifest.manifestGeneration)

theorem publishObject_of_read (hsync : Synced A.toEngineFormat vault.db entries)
    {object : SealedObject S}
    (h : vault.publishSegmentRecords A segmentId generation vault.db.segmentRecordsForSnapshot =
      (.ok object, written)) (keeps : String → Bool) :
    vault.publishObject A segmentId generation vault.db.manifest keeps =
      (.ok (), written.withPublication A object keeps) := by
  obtain ⟨hwrote, -⟩ := publishSegmentRecords_cases h
  -- The files beside the manifest are not those of the log.
  have hmanifest : written.db.manifest = vault.db.manifest := hwrote.manifest
  have hdisk : (written.writeArtifacts
      (object.artifacts A vault.db.manifest.manifestGeneration)).db.disk.manifest =
        some (A.manifestCodec.encode vault.db.manifest) := by
    rcases hwrote with rfl | ⟨-, rfl⟩ <;> exact hsync.manifestFile
  rw [publishObject, h]
  dsimp only
  rw [writeManifest_of_manifest hsync.isSealed hdisk, withPublication, manifestWith, hmanifest]
  rfl

/-- What a publication does to the files and to the handle. -/
theorem publishObject_cases (hsync : Synced A.toEngineFormat vault.db entries) (segmentId : String)
    (generation : ℕ) (keeps : String → Bool) :
    ∃ written, vault.Wrote segmentId generation written ∧
      ((∃ e, vault.publishObject A segmentId generation vault.db.manifest keeps =
        (.error e, written)) ∨
        ∃ object, readSegmentObject A written.db.disk segmentId = .ok object ∧
          vault.publishObject A segmentId generation vault.db.manifest keeps =
            (.ok (), written.withPublication A object keeps)) := by
  rcases hpublish : vault.publishSegmentRecords A segmentId generation
    vault.db.segmentRecordsForSnapshot with
    ⟨result, written⟩
  obtain ⟨hwrote, hread⟩ := publishSegmentRecords_cases hpublish
  refine ⟨written, hwrote, ?_⟩
  cases result with
  | error e =>
    rw [publishObject, hpublish]
    exact .inl ⟨e, rfl⟩
  | ok object => exact .inr ⟨object, hread object rfl, publishObject_of_read hsync hpublish keeps⟩

/-- A publication under an id that has an object takes it as it is. -/
theorem publishObject_reused (hsync : Synced A.toEngineFormat vault.db entries)
    {object : SealedObject S} (hread : readSegmentObject A vault.db.disk segmentId = .ok object)
    (generation : ℕ) (keeps : String → Bool) :
    vault.publishObject A segmentId generation vault.db.manifest keeps =
      (.ok (), vault.withPublication A object keeps) := by
  refine publishObject_of_read hsync ?_ keeps
  rw [publishSegmentRecords]
  cases hfile : vault.db.disk.segments[segmentId]? with
  | none =>
    rw [readSegmentObject, hfile] at hread
    cases hread
  | some file =>
    dsimp only
    rw [hread]

/-- A publication under a new id of records that are read back. -/
theorem publishObject_fresh (hsync : Synced A.toEngineFormat vault.db entries)
    (hid : Text.isBlank segmentId = false) (hfresh : vault.db.disk.segments[segmentId]? = none)
    (h : ∀ record ∈ vault.db.segmentRecordsForSnapshot,
      Settles (IndexRecord.reread A) (indexRecordFromSegment A.toQueryFormat record))
    (generation : ℕ) (keeps : String → Bool) :
    ∃ object, readSegmentObject A
      (vault.writeObject (vault.objectFile segmentId generation)).db.disk segmentId =
        .ok object ∧
      vault.publishObject A segmentId generation vault.db.manifest keeps =
        (.ok (), (vault.writeObject (vault.objectFile segmentId generation)).withPublication
          A object keeps) := by
  obtain ⟨after, hok⟩ := publishObject_ok hsync hid hfresh h generation vault.db.manifest keeps
  obtain ⟨written, hwrote, ⟨e, herror⟩ | ⟨object, hread, hout⟩⟩ :=
    publishObject_cases hsync segmentId generation keeps
  · cases hok.symm.trans herror
  · rcases hwrote with rfl | ⟨-, rfl⟩
    · rw [readSegmentObject, hfresh] at hread
      cases hread
    · exact ⟨object, hread, hout⟩

/-- `publish_segment` under an id of the manifest changes nothing. -/
theorem publishSegment_known (hsync : Synced A.toEngineFormat vault.db entries) {generation : ℕ}
    (hknown : ∃ segment ∈ vault.db.manifest.segments, segment.segmentId = segmentId) :
    (vault.publishSegmentWithParentGeneration A segmentId generation).2 = vault := by
  have hread := readManifest_of_manifest hsync.isSealed hsync.manifestFile
  rw [publishSegmentWithParentGeneration, hread]
  dsimp only
  split_ifs
  · rfl
  · cases hfind : vault.db.manifest.segments.find? fun segment => segment.segmentId = segmentId with
    | none =>
      obtain ⟨segment, hsegment, hid⟩ := hknown
      exact absurd (decide_eq_true hid) (List.find?_eq_none.1 hfind segment hsegment)
    | some existing =>
      dsimp only
      split_ifs
      · rfl
      · split
        · rfl
        · split_ifs
          · rfl
          · rfl

/-- `compact`, when its id is in the manifest, fails. -/
theorem compact_known (hsync : Synced A.toEngineFormat vault.db entries)
    (hknown : ∃ segment ∈ vault.db.manifest.segments, segment.segmentId = vault.compactId) :
    ∃ e, vault.compact A = (.error e, vault) := by
  have hread := readManifest_of_manifest hsync.isSealed hsync.manifestFile
  obtain ⟨segment, hsegment, hid⟩ := hknown
  have hany : (vault.db.manifest.segments.any fun segment => segment.segmentId = vault.compactId) =
      true :=
    List.any_eq_true.2 ⟨segment, hsegment, decide_eq_true hid⟩
  rw [compact, publishCompactedSegment, hread]
  dsimp only
  rw [if_neg (not_not.2 rfl), if_pos hany]
  exact ⟨_, rfl⟩

/-- `vacuum` on a handle that is in step. -/
theorem vacuum_eq (hsync : Synced A.toEngineFormat vault.db entries) :
    (vault.vacuum A).2 = { vault with
      db := { vault.db with disk := { vault.db.disk with
        segments := vault.db.disk.segments.filter fun id _ =>
          decide (id ∈ vault.db.manifest.segments.map (·.segmentId)) } }
      artifacts := vault.artifacts.filter fun id _ => decide
        (id ∈ vault.indexes.map (·.indexId)) } := by
  rw [vacuum, hsync.refresh]

end Vault

/-! ### Calls -/

/-- A call on a handle. -/
inductive VaultCall where
  | run (op : Op)
  | publish (segmentId : SegmentId)
  | compact
  | vacuum

/-- The vault after a call; one that fails leaves what it has written. -/
def VaultCall.after (A : ArtifactFormat S) (vault : Vault S) : VaultCall → Vault S
  | .run op => { vault with db := (vault.db.run A.toEngineFormat op).2 }
  | .publish segmentId => (vault.publishSegment A segmentId.id).2
  | .compact => (vault.compact A).2
  | .vacuum => (vault.vacuum A).2

/-- Calls one after the other. -/
def Vault.afterCalls (A : ArtifactFormat S) (vault : Vault S) (calls : List VaultCall) : Vault S :=
  calls.foldl (VaultCall.after A) vault

/-- A handle that is opened on an empty directory. -/
def Vault.initial (A : ArtifactFormat S) (dir : String) :
    Vault S := ⟨initialDb A.toEngineFormat dir, ∅, []⟩

/-- A publication that stops before its manifest: its object is written, and some of its
artifacts. -/
def Vault.abandoned (A : ArtifactFormat S) (vault : Vault S) (segmentId : String)
    (generation n : ℕ) : Vault S :=
  match vault.publishSegmentRecords A segmentId generation vault.db.segmentRecordsForSnapshot with
  | (.error _, vault) => vault
  | (.ok object, vault) =>
    vault.writeArtifacts ((object.artifacts A vault.db.manifest.manifestGeneration).take n)

/-- A publication that stops inside the writing of its manifest: its object and artifacts are
written. -/
def Vault.unpublished (A : ArtifactFormat S) (vault : Vault S) (segmentId : String) (generation : ℕ)
    (keeps : String → Bool) (k n : ℕ) : Vault S :=
  match vault.publishSegmentRecords A segmentId generation vault.db.segmentRecordsForSnapshot with
  | (.error _, vault) => vault
  | (.ok object, vault) =>
    let left := vault.writeArtifacts (object.artifacts A vault.db.manifest.manifestGeneration)
    { left with
      db := { left.db with
        disk := crashAt left.db.disk (replaceSteps A.toEngineFormat left.db.manifest
          (sealManifest A.toEngineFormat (left.manifestWith A object keeps))) k n } }

/-- A vacuum that stops before its end: some of the files that nothing refers to are removed. -/
def Vault.halfVacuumed (vault : Vault S) (segment artifact : String → Bool) : Vault S :=
  { vault with
    db := { vault.db with disk := { vault.db.disk with
      segments := vault.db.disk.segments.filter fun id _ =>
        decide (id ∈ vault.db.manifest.segments.map (·.segmentId)) || segment id } }
    artifacts := vault.artifacts.filter fun id _ =>
      decide (id ∈ vault.indexes.map (·.indexId)) || artifact id }

/-- The vaults of any run from an empty directory: calls, checkpoints, reopening, and crashes with
the reopening after them.  A crash is inside a write, inside a checkpoint, inside a publication,
among its files or inside the writing of its manifest before this is renamed, or inside a vacuum.
One inside the file of a checkpoint leaves a staged file that is never read, which is as
reopening. -/
inductive Vault.Reachable (A : ArtifactFormat S) (dir : String) : Vault S → Prop
  | initial : Reachable A dir (Vault.initial A dir)
  | call {vault : Vault S} (call : VaultCall) :
      Reachable A dir vault → Reachable A dir (call.after A vault)
  | checkpoint {vault : Vault S} {db : Db} {epoch : Epoch} : Reachable A dir vault →
      vault.db.checkpoint A.toEngineFormat = (.ok epoch, db) →
      Reachable A dir { vault with db := db }
  | reopen {vault : Vault S} {db : Db} : Reachable A dir vault →
      Db.open A.toEngineFormat vault.db.disk = .ok db → Reachable A dir { vault with db := db }
  | crash {vault : Vault S} {done db : Db} {op : Op} {plan : PlannedWrite}
    {reply : Reply} (k n : ℕ) :
      Reachable A dir vault → vault.db.plan A.toEngineFormat op = .ok (some plan) →
      vault.db.run A.toEngineFormat op = (.ok reply, done) →
      Db.open A.toEngineFormat
        (crashAt vault.db.disk (vault.db.writeSteps A.toEngineFormat plan) k n) = .ok db →
      Reachable A dir { vault with db := db }
  | checkpointCrash {vault : Vault S} {db : Db} (k n : ℕ) : Reachable A dir vault →
      Db.open A.toEngineFormat (vault.db.checkpointCrashDisk A.toEngineFormat k n) = .ok db →
      Reachable A dir { vault with db := db }
  | publishCrash {vault : Vault S} {db : Db} (segmentId : SegmentId) (generation n : ℕ) :
      Reachable A dir vault →
      (∀ segment ∈ vault.db.manifest.segments, segment.segmentId ≠ segmentId.id) →
      Db.open A.toEngineFormat (vault.abandoned A segmentId.id generation n).db.disk = .ok db →
      Reachable A dir { vault.abandoned A segmentId.id generation n with db := db }
  | manifestCrash {vault : Vault S} {db : Db} (segmentId : SegmentId) (generation : ℕ)
      (keeps : String → Bool) {k : ℕ} (n : ℕ) : Reachable A dir vault →
      (∀ segment ∈ vault.db.manifest.segments, segment.segmentId ≠ segmentId.id) → k < 3 →
      Db.open A.toEngineFormat (vault.unpublished A segmentId.id generation keeps k n).db.disk =
        .ok db →
      Reachable A dir { vault.unpublished A segmentId.id generation keeps k n with db := db }
  | vacuumCrash {vault : Vault S} {db : Db} (segment artifact : String → Bool) :
      Reachable A dir vault →
      Db.open A.toEngineFormat (vault.halfVacuumed segment artifact).db.disk = .ok db →
      Reachable A dir { vault.halfVacuumed segment artifact with db := db }

/-- The id of a compaction is one of a segment. -/
theorem Vault.isFileName_compactId (vault : Vault S) : IsFileName vault.compactId := by
  intro c hc
  have hdigit : ∀ n : ℕ, c ∈ (toString n).toList → c ≠ '/' ∧ c.toNat ≠ 0 := by
    intro n hn
    have hrange := Text.isDigit_iff.1 (Text.isDigit_of_mem_toString hn)
    refine ⟨fun hslash => ?_, by omega⟩
    rw [hslash] at hrange
    exact absurd hrange (by decide)
  simp only [compactId, String.toList_append, List.mem_append] at hc
  rcases hc with ((hc | hc) | hc) | hc
  · exact (by decide : ∀ c ∈ "compact-".toList, c ≠ '/' ∧ c.toNat ≠ 0) c hc
  · exact hdigit _ hc
  · exact (by decide : ∀ c ∈ "-".toList, c ≠ '/' ∧ c.toNat ≠ 0) c hc
  · exact hdigit _ hc

/-- Another backup and another staged manifest. -/
def Vault.withStaged (vault : Vault S) (bak tmp : Option Bytes) : Vault S :=
  { vault with
    db := { vault.db with disk := { vault.db.disk with manifestBak := bak, manifestTmp := tmp } } }

/-- A publication that stops inside the writing of its manifest has written its files, and another
backup and another staged manifest. -/
theorem Vault.unpublished_eq (vault : Vault S) (segmentId : String) (generation : ℕ)
    (keeps : String → Bool) {k : ℕ} (hk : k < 3) (n : ℕ) : ∃ m bak tmp,
      vault.unpublished A segmentId generation keeps k n =
        (vault.abandoned A segmentId generation m).withStaged bak tmp := by
  rcases hpublish : vault.publishSegmentRecords A segmentId generation
    vault.db.segmentRecordsForSnapshot
    with ⟨e | object, written⟩
  · refine ⟨0, written.db.disk.manifestBak, written.db.disk.manifestTmp, ?_⟩
    rw [unpublished, abandoned, hpublish]
    rfl
  · let left := written.writeArtifacts (object.artifacts A written.db.manifest.manifestGeneration)
    obtain ⟨bak, tmp, hcrash⟩ := crashAt_replaceSteps (F := A.toEngineFormat) left.db.disk
      left.db.manifest (sealManifest A.toEngineFormat (left.manifestWith A object keeps)) hk n
    refine ⟨(object.artifacts A written.db.manifest.manifestGeneration).length, bak, tmp, ?_⟩
    rw [unpublished, abandoned, hpublish]
    dsimp only
    rw [List.take_length, hcrash]
    rfl

/-! ### Segment files of a directory -/

theorem segments_writeManifest {F : EngineFormat} {disk : Disk} {manifest : Manifest}
    {out : Manifest × Disk} (h : writeManifest F disk manifest = .ok out) :
      out.2.segments = disk.segments := by
  simp only [writeManifest, Except.bind_eq_ok_iff] at h
  obtain ⟨copied, hcopied, h⟩ := h
  obtain rfl := Except.ok.inj h
  unfold copyManifestBackup at hcopied
  split at hcopied
  · exact Except.ok.inj hcopied ▸ rfl
  · split at hcopied
    · split_ifs at hcopied
      exact Except.ok.inj hcopied ▸ rfl
    · exact Except.ok.inj hcopied ▸ rfl

/-- Opening a directory writes no segment objects. -/
theorem segments_open {F : EngineFormat} {disk : Disk} {db : Db} (h : Db.open F disk = .ok db) :
    db.disk.segments = disk.segments := by
  simp only [Db.open, Except.bind_eq_ok_iff] at h
  obtain ⟨ready, hready, _, -, _, -, _, -, _, -, ⟨manifest, last⟩, hcatch, h⟩ := h
  obtain rfl := Except.ok.inj h
  have hlast : last.segments = ready.segments := by
    unfold catchUpManifest at hcatch
    split at hcatch
    · obtain ⟨-, rfl⟩ := Prod.mk.inj (Except.ok.inj hcatch)
      rfl
    · split_ifs at hcatch
      · exact (segments_writeManifest hcatch).trans rfl
      · obtain ⟨-, rfl⟩ := Prod.mk.inj (Except.ok.inj hcatch)
        rfl
  refine hlast.trans ?_
  unfold initializeManifest at hready
  split_ifs at hready
  · rw [Except.bind_eq_ok_iff] at hready
    obtain ⟨out, hwrite, hready⟩ := hready
    obtain rfl := Except.ok.inj hready
    exact segments_writeManifest hwrite
  · exact Except.ok.inj hready ▸ rfl

theorem DiskStep.apply_segments (disk : Disk) (step : DiskStep) :
    (step.apply disk).segments = disk.segments := by
  cases step with
  | renameTmp | renameJobsTmp =>
    rw [DiskStep.apply]
    split <;> rfl
  | _ => rfl

theorem segments_crashAt (disk : Disk) (steps : List DiskStep) (k n : ℕ) :
    (crashAt disk steps k n).segments = disk.segments := by
  have hdone : ((steps.take k).foldl DiskStep.apply disk).segments = disk.segments := by
    induction steps.take k generalizing disk with
    | nil => rfl
    | cons step steps ih => exact (ih _).trans (step.apply_segments disk)
  rw [crashAt]
  split
  · exact hdone
  · rename_i step _
    refine Eq.trans ?_ hdone
    cases step with
    | _ => rfl

theorem Synced.keyed_run {F : EngineFormat} [F.Lossless] {db : Db} {entries : List WalEntry}
    (h : Synced F db entries) (hkeyed : db.store.Keyed) (op : Op) :
      (db.run F op).2.store.Keyed := by
  rcases h.run_cases op with hsame | ⟨plan, hplan, -, hrun, -⟩
  · rwa [hsame]
  · rw [hrun]
    obtain ⟨writes, -, hwrites⟩ := plan_writes hplan
    refine RecordStore.Keyed.planAll ?_ hwrites
    rwa [RecordStore.applyDelta_empty]

namespace Vault

variable {vault written : Vault S} {entries : List WalEntry} {segmentId : String} {generation : ℕ}

/-! ### Files of segments -/

/-- Every segment object is under its id. -/
def Named (vault : Vault S) : Prop :=
  ∀ (id : String) (file : SegmentObject), vault.db.disk.segments[id]? = some file →
    file.segmentId = id

theorem Named.wrote (h : vault.Named) (hwrote : vault.Wrote segmentId generation written) :
    written.Named := by
  rcases hwrote with rfl | ⟨-, rfl⟩
  · exact h
  · intro id file hfile
    have hinsert : (vault.db.disk.segments.insert segmentId
        (vault.objectFile segmentId generation))[id]? =
      some file := hfile
    rw [Std.ExtTreeMap.getElem?_insert] at hinsert
    split_ifs at hinsert with hid
    · rw [← Option.some.inj hinsert]
      exact compare_eq_iff_eq.1 hid
    · exact h id file hinsert

end Vault

/-- Only the segment objects of the directory are others. -/
theorem Synced.withSegments {F : EngineFormat} {db : Db} {entries : List WalEntry}
    (h : Synced F db entries) (segments : Std.ExtTreeMap String SegmentObject compare) :
    Synced F { db with disk := { db.disk with segments := segments } } entries :=
  ⟨h.isSealed, h.manifestFile, h.chain, h.tail, h.epochs, h.checkpoint, h.names, h.covers,
    h.checkpointSchemas⟩

theorem Synced.withPublication {vault : Vault S} {entries : List WalEntry}
    (h : Synced A.toEngineFormat vault.db entries) (object : SealedObject S)
    (keeps : String → Bool) :
    Synced A.toEngineFormat (vault.withPublication A object keeps).db entries :=
  h.published (.inr ⟨vault.db.disk.segments, vault.manifestWith A object keeps,
    ⟨rfl, rfl, rfl, rfl, rfl⟩, rfl⟩)

/-- The handle is in step with its directory, the versions of its store are under their keys, and
the segment objects under their ids. -/
structure Vault.Sound (A : ArtifactFormat S) (vault : Vault S) : Prop where
  synced : ∃ entries, Synced A.toEngineFormat vault.db entries
  keyed : vault.db.store.Keyed
  named : vault.Named

namespace Vault.Sound

variable {vault written : Vault S} {segmentId : String} {generation : ℕ}

theorem initial (dir : String) : (Vault.initial A dir).Sound A where
  synced := ⟨[], synced_initialDb dir⟩
  keyed := RecordStore.holds_empty
  named id file hfile := by
    have hnone : (∅ : Std.ExtTreeMap String SegmentObject compare)[id]? = some file := hfile
    rw [Std.ExtTreeMap.getElem?_empty] at hnone
    cases hnone

theorem wrote (h : vault.Sound A) (hwrote : vault.Wrote segmentId generation written) :
    written.Sound A where
  synced := by
    obtain ⟨entries, hsync⟩ := h.synced
    rcases hwrote with rfl | ⟨-, rfl⟩
    · exact ⟨entries, hsync⟩
    · exact ⟨entries, hsync.withSegments _⟩
  keyed := by
    rcases hwrote with rfl | ⟨-, rfl⟩
    · exact h.keyed
    · exact h.keyed
  named := h.named.wrote hwrote

theorem withPublication (h : vault.Sound A) (object : SealedObject S) (keeps : String → Bool) :
    (vault.withPublication A object keeps).Sound A where
  synced := by
    obtain ⟨entries, hsync⟩ := h.synced
    exact ⟨entries, hsync.withPublication object keeps⟩
  keyed := h.keyed
  named := h.named

theorem publishObject (h : vault.Sound A) (segmentId : String) (generation : ℕ)
    (keeps : String → Bool) :
    (vault.publishObject A segmentId generation vault.db.manifest keeps).2.Sound A := by
  obtain ⟨entries, hsync⟩ := h.synced
  obtain ⟨written, hwrote, ⟨e, hout⟩ | ⟨object, -, hout⟩⟩ :=
    Vault.publishObject_cases hsync segmentId generation keeps
  · rw [hout]
    exact h.wrote hwrote
  · rw [hout]
    exact (h.wrote hwrote).withPublication object keeps

theorem abandoned (h : vault.Sound A) (segmentId : String) (generation n : ℕ) :
    (vault.abandoned A segmentId generation n).Sound A := by
  rw [Vault.abandoned]
  rcases hpublish : vault.publishSegmentRecords A segmentId generation
    vault.db.segmentRecordsForSnapshot with
    ⟨e | object, written⟩
  · exact h.wrote (Vault.publishSegmentRecords_cases hpublish).1
  · have hwritten := h.wrote (Vault.publishSegmentRecords_cases hpublish).1
    exact ⟨hwritten.synced, hwritten.keyed, hwritten.named⟩

/-- Another backup and another staged manifest. -/
theorem withStaged (h : vault.Sound A) (bak tmp : Option Bytes) :
    (vault.withStaged bak tmp).Sound A where
  synced := by
    obtain ⟨entries, hsync⟩ := h.synced
    exact ⟨entries, hsync.isSealed, hsync.manifestFile, hsync.chain, hsync.tail, hsync.epochs,
      hsync.checkpoint, hsync.names, hsync.covers, hsync.checkpointSchemas⟩
  keyed := h.keyed
  named := h.named

theorem run (h : vault.Sound A) (op : Op) :
    Vault.Sound A { vault with db := (vault.db.run A.toEngineFormat op).2 } := by
  obtain ⟨entries, hsync⟩ := h.synced
  refine ⟨hsync.run op, hsync.keyed_run h.keyed op, ?_⟩
  rcases hsync.run_cases op with hsame | ⟨plan, -, -, hrun, -⟩
  · rw [hsame]
    exact h.named
  · rw [hrun]
    exact h.named

/-- Some of the files are removed. -/
theorem filtered (h : vault.Sound A) (segment artifact : String → Bool) : Vault.Sound A { vault with
    db := { vault.db with disk := { vault.db.disk with
      segments := vault.db.disk.segments.filter fun id _ => segment id } }
    artifacts := vault.artifacts.filter fun id _ => artifact id } where
  synced := by
    obtain ⟨entries, hsync⟩ := h.synced
    exact ⟨entries, hsync.withSegments _⟩
  keyed := h.keyed
  named id file hfile := by
    have hfilter : (vault.db.disk.segments.filter fun id _ => segment id)[id]? = some file := hfile
    rw [Std.ExtTreeMap.getElem?_filter', Option.filter_eq_some_iff] at hfilter
    exact h.named id file hfilter.1

/-- **A call.** -/
theorem call (h : vault.Sound A) (call : VaultCall) : (call.after A vault).Sound A := by
  obtain ⟨entries, hsync⟩ := h.synced
  cases call with
  | run op => exact h.run op
  | publish segmentId =>
    show (vault.publishSegment A segmentId.id).2.Sound A
    by_cases hknown : ∃ segment ∈ vault.db.manifest.segments, segment.segmentId = segmentId.id
    · rw [Vault.publishSegment, Vault.publishSegment_known hsync hknown]
      exact h
    · push Not at hknown
      rw [Vault.publishSegment_new hsync hknown]
      exact h.publishObject _ _ _
  | compact =>
    show (vault.compact A).2.Sound A
    by_cases hknown : ∃ segment ∈ vault.db.manifest.segments, segment.segmentId = vault.compactId
    · obtain ⟨e, hout⟩ := Vault.compact_known hsync hknown
      rw [hout]
      exact h
    · push Not at hknown
      rw [Vault.compact_new hsync hknown]
      exact h.publishObject _ _ _
  | vacuum =>
    show (vault.vacuum A).2.Sound A
    rw [Vault.vacuum_eq hsync]
    exact h.filtered _ _

/-- A handle that is opened on a directory that is recoverable, with these segment objects. -/
theorem opened (h : vault.Sound A) {disk : Disk} {manifest : Manifest} {entries : List WalEntry}
    {whole cut : Bytes} (hrec : Recoverable A.toEngineFormat disk manifest entries whole cut)
    (hsegments : disk.segments = vault.db.disk.segments) {db : Db}
    (hopen : Db.open A.toEngineFormat disk = .ok db) : Vault.Sound A { vault with db := db } where
  synced := ⟨_, hrec.synced hopen⟩
  keyed := keyed_open hopen
  named id file hfile := by
    have hsame : db.disk.segments = vault.db.disk.segments := (segments_open hopen).trans hsegments
    exact h.named id file (hsame ▸ hfile)

end Vault.Sound

/-- **Every reachable vault is sound.** -/
theorem Vault.Reachable.sound {dir : String} {vault : Vault S} (h : Vault.Reachable A dir vault) :
    vault.Sound A := by
  induction h with
  | initial => exact .initial dir
  | call call _ ih => exact ih.call call
  | checkpoint _ hcheckpoint ih =>
    obtain ⟨entries, hsync⟩ := ih.synced
    rw [hsync.checkpoint_eq] at hcheckpoint
    obtain ⟨-, rfl⟩ := Prod.mk.inj hcheckpoint
    exact ⟨⟨[], hsync.checkpointed⟩, ih.keyed, ih.named⟩
  | reopen _ hopen ih =>
    obtain ⟨entries, hsync⟩ := ih.synced
    exact ih.opened hsync.recoverable rfl hopen
  | crash k n _ hplan hrun hopen ih =>
    obtain ⟨entries, hsync⟩ := ih.synced
    obtain ⟨hfit, -⟩ := hsync.fits_of_run hplan hrun
    rcases hsync.crash_cases hplan hfit k n with ⟨cut, -, -, -, hrec⟩ | ⟨-, manifest, -, hrec⟩
    · exact ih.opened hrec (segments_crashAt _ _ k n) hopen
    · exact ih.opened hrec (segments_crashAt _ _ k n) hopen
  | checkpointCrash k n _ hopen ih =>
    obtain ⟨entries, hsync⟩ := ih.synced
    obtain ⟨hsegments, manifest, -, hrec⟩ := hsync.recoverable_checkpointCrash k n
    exact ih.opened hrec hsegments hopen
  | publishCrash segmentId generation n _ _ hopen ih =>
    have hleft := ih.abandoned segmentId.id generation n
    obtain ⟨entries, hsync⟩ := hleft.synced
    exact hleft.opened hsync.recoverable rfl hopen
  | @manifestCrash vault _ segmentId generation keeps k n _ _ hk hopen ih =>
    obtain ⟨m, bak, tmp, heq⟩ := vault.unpublished_eq (A := A) segmentId.id generation keeps hk n
    have hleft : (vault.unpublished A segmentId.id generation keeps k n).Sound A :=
      heq ▸ (ih.abandoned segmentId.id generation m).withStaged bak tmp
    obtain ⟨entries, hsync⟩ := hleft.synced
    exact hleft.opened hsync.recoverable rfl hopen
  | @vacuumCrash vault _ segment artifact _ hopen ih =>
    have hleft : (vault.halfVacuumed segment artifact).Sound A := ih.filtered _ _
    obtain ⟨entries, hsync⟩ := hleft.synced
    exact hleft.opened hsync.recoverable rfl hopen

end TraceDB
