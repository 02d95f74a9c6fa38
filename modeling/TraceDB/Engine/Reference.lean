import TraceDB.Engine.Sync
import TraceDB.Log.Reference

/-!
# A reference format of the engine

The engine is proved correct for every `EngineFormat`.  This file gives one, with SHA-256 and
lossless serializers, for results about concrete runs.  `Db.commitAllSmall` evaluates a run without
the checksums of its log (`Synced.runAll_of_commitAllSmall`).
-/

namespace TraceDB

namespace StreamCodec

/-- `SegmentState`. -/
def segmentState : StreamCodec SegmentState :=
  nat.xmap SegmentState.ctorIdx (fun n => some (SegmentState.ofNat n)) (fun s => by cases s <;> rfl)

/-- `SegmentManifest`. -/
def segmentManifest : StreamCodec SegmentManifest :=
  (prod string (prod nat (prod segmentState (prod (list string) (list string))))).xmap
    (fun s => (s.segmentId, s.generation, s.state, s.tableSet, s.tenantSet))
    (fun p => some ⟨p.1, p.2.1, p.2.2.1, p.2.2.2.1, p.2.2.2.2⟩) (fun _ => rfl)

/-- `IndexState`. -/
def indexState : StreamCodec IndexState :=
  nat.xmap IndexState.ctorIdx (fun n => some (IndexState.ofNat n)) (fun s => by cases s <;> rfl)

/-- `IndexManifest`. -/
def indexManifest : StreamCodec IndexManifest :=
  (prod string (prod string (prod nat (prod string indexState)))).xmap
    (fun i => (i.indexId, i.segmentId, i.generation, i.kind, i.state))
    (fun p => some ⟨p.1, p.2.1, p.2.2.1, p.2.2.2.1, p.2.2.2.2⟩) (fun _ => rfl)

/-- `TraceDbManifest`. -/
def manifest : StreamCodec Manifest :=
  (prod nat (prod string (prod string (prod nat (prod nat (prod nat (prod (list tableSchema)
    (prod (list segmentManifest) (prod (list indexManifest) (prod digest digest)))))))))).xmap
    (fun m => (m.manifestGeneration, m.databaseId, m.branchId, m.latestEpoch, m.durableEpoch,
      m.checkpointEpoch, m.schemas, m.segments, m.indexes, m.checksums.parentChecksum,
      m.checksums.manifestChecksum))
    (fun ⟨generation, databaseId, branchId, latest, durable, checkpoint, schemas, segments, indexes,
        parent, own⟩ =>
      some ⟨generation, databaseId, branchId, latest, durable, checkpoint, schemas, segments,
        indexes, ⟨parent, own⟩⟩)
    (fun _ => rfl)

/-- `RecordHeader`. -/
def recordHeader : StreamCodec RecordHeader :=
  (prod string (prod string (prod string (prod nat (prod nat (prod (option nat) (prod nat
    (option string)))))))).xmap
    (fun h => (h.recordId, h.tableId, h.tenantId, h.schemaVersion, h.beginEpoch, h.endEpoch,
      h.versionId, h.tombstone))
    (fun p => some ⟨p.1, p.2.1, p.2.2.1, p.2.2.2.1, p.2.2.2.2.1, p.2.2.2.2.2.1, p.2.2.2.2.2.2.1,
      p.2.2.2.2.2.2.2⟩)
    (fun _ => rfl)

/-- `DerivedFeatureState`. -/
def derivedFeatureState : StreamCodec DerivedFeatureState :=
  (prod (list string) (prod nat (prod (option string) (prod (option string) (prod nat (prod nat
    featureStatus)))))).xmap
    (fun s => (s.sourceColumns, s.sourceHash, s.modelId, s.modelVersion, s.createdEpoch,
      s.validForEpoch, s.status))
    (fun p => some ⟨p.1, p.2.1, p.2.2.1, p.2.2.2.1, p.2.2.2.2.1, p.2.2.2.2.2.1, p.2.2.2.2.2.2⟩)
    (fun _ => rfl)

/-- `StoredRecord`. -/
def storedRecord : StreamCodec StoredRecord :=
  (prod recordHeader (prod fields (map string derivedFeatureState))).xmap
    (fun r => (r.header, r.fields, r.features)) (fun p => some ⟨p.1, p.2.1, p.2.2⟩) (fun _ => rfl)

/-- `JobCatalog`. -/
def jobCatalog : StreamCodec JobCatalog :=
  (map string traceJob).xmap (fun c => c.jobs) (fun jobs => some ⟨jobs⟩) (fun _ => rfl)

/-- `CheckpointPayload`. -/
def checkpointPayload : StreamCodec CheckpointPayload :=
  (prod nat (prod nat (prod (list tableSchema) (prod (list storedRecord)
    (prod (list idempotencyReceipt) jobCatalog))))).xmap
    (fun c => (c.formatVersion, c.epoch, c.schemas, c.records, c.idempotencyReceipts, c.jobCatalog))
    (fun p => some ⟨p.1, p.2.1, p.2.2.1, p.2.2.2.1, p.2.2.2.2.1, p.2.2.2.2.2⟩) (fun _ => rfl)

end StreamCodec

/-! ### The text of a value -/

/-- A character inside a JSON string. -/
def escapeChar (c : Char) : String :=
  if c = '"' then "\\\""
  else if c = '\\' then "\\\\"
  else if c = '\n' then "\\n"
  else if c = '\r' then "\\r"
  else if c = '\t' then "\\t"
  else if c.toNat = 8 then "\\b"
  else if c.toNat = 12 then "\\f"
  else if c.toNat < 32 then "\\u00" ++ hexByte (UInt8.ofNat c.toNat)
  else String.singleton c

/-- A JSON string. -/
def quote (s : String) : String := "\"" ++ String.join (s.toList.map escapeChar) ++ "\""

/-- A JSON number; a double is written by its bits. -/
def Number.text : Number → String
  | .posInt n => toString n.toNat
  | .negInt n => toString n.toInt
  | .float bits => toString bits.toNat

mutual

/-- The text of a JSON value, without blanks. -/
def Value.text : Value → String
  | .null => "null"
  | .bool b => if b then "true" else "false"
  | .number n => n.text
  | .string s => quote s
  | .array items => "[" ++ String.intercalate "," (Value.texts items) ++ "]"
  | .object fields => "\x7b" ++ String.intercalate "," (Value.fieldTexts fields) ++ "\x7d"

/-- The texts of the items of an array. -/
def Value.texts : List Value → List String
  | [] => []
  | v :: vs => v.text :: Value.texts vs

/-- The texts of the entries of an object. -/
def Value.fieldTexts : List (String × Value) → List String
  | [] => []
  | (k, v) :: fs => (quote k ++ ":" ++ v.text) :: Value.fieldTexts fs

end

/-- SHA-256, away from the digest that the code takes for a missing one.  No input with that digest
is known. -/
def nonzeroSha256 (message : Bytes) : Digest :=
  if sha256 message = Digest.zero then ⟨List.replicate 32 1, List.length_replicate⟩
  else sha256 message

theorem nonzeroSha256_ne_zero (message : Bytes) : nonzeroSha256 message ≠ Digest.zero := by
  unfold nonzeroSha256
  split_ifs with h
  · decide
  · exact h

/-- The reference format of the engine. -/
def EngineFormat.reference : EngineFormat where
  checksumBytes := nonzeroSha256
  commitCodec := StreamCodec.commitRecord.toJson
  checksumBytes_ne_zero := nonzeroSha256_ne_zero
  manifestCodec := StreamCodec.manifest.toJson
  manifestCodec_readsBack := StreamCodec.readsBack_toJson _
  manifestBytes := StreamCodec.manifest.enc
  checkpointCodec := StreamCodec.checkpointPayload.toJson
  jobCatalogBytes := StreamCodec.jobCatalog.enc
  valueToString := Value.text

instance EngineFormat.lossless_reference : EngineFormat.reference.Lossless where
  commit := StreamCodec.readsBack_toJson _
  checkpoint := StreamCodec.readsBack_toJson _

/-! ### Runs of small commits -/

/-- The commit fits into a frame, whatever the checksum of the frame before it. -/
def CommitRecord.isSmall (commit : CommitRecord) : Bool :=
  decide ((StreamCodec.commitRecord.toJson.encode commit.content).length + 321 ≤ maxPayloadLen)

theorem fits_of_isSmall {commit : CommitRecord} (h : commit.isSmall = true)
    (entries : List WalEntry) : Fits EngineFormat.reference.toWalFormat entries commit := by
  have hsmall : (StreamCodec.commitRecord.toJson.encode commit.content).length + 321 ≤
    maxPayloadLen := of_decide_eq_true h
  -- The hash of the frame before is the only part in which the two texts differ.
  have hlength : ∀ d : Digest, (StreamCodec.commitRecord.toJson.encode
      (commit.prepareForFrame d)).length + (StreamCodec.digest.enc Digest.zero).length =
        (StreamCodec.commitRecord.toJson.encode commit.content).length +
          (StreamCodec.digest.enc d).length := by
    intro d
    simp only [CommitRecord.content, CommitRecord.prepareForFrame, StreamCodec.toJson,
      StreamCodec.commitRecord, StreamCodec.xmap, StreamCodec.prod, List.length_cons,
      List.length_append]
    omega
  have hdigest := StreamCodec.length_digest_le (lastChecksum entries)
  have heq := hlength (lastChecksum entries)
  show (StreamCodec.commitRecord.toJson.encode
    (commit.prepareForFrame (lastChecksum entries))).length ≤ maxPayloadLen
  omega

/-- The handle and its log after operations whose commits are all small. -/
def Db.commitAllSmall (db : Db) (entries : List WalEntry) : List Op → Option (Db × List WalEntry)
  | [] => some (db, entries)
  | op :: ops =>
    match db.plan .reference op with
    | .ok (some plan) =>
      if plan.commit.isSmall then
        (db.committed .reference entries plan).commitAllSmall
          (entries ++ [nextEntry EngineFormat.reference.toWalFormat entries plan.commit]) ops
      else none
    | _ => none

theorem Db.commitAll_of_small {db : Db} {entries : List WalEntry} {ops : List Op}
    {after : Db × List WalEntry} (h : db.commitAllSmall entries ops = some after) :
    db.commitAll .reference entries ops = some after := by
  induction ops generalizing db entries with
  | nil => exact h
  | cons op ops ih =>
    rw [Db.commitAllSmall] at h
    split at h
    · rename_i plan hplan
      split_ifs at h with hsmall
      have hcommit : db.commitAll .reference entries (op :: ops) =
          (db.committed .reference entries plan).commitAll .reference
            (entries ++ [nextEntry EngineFormat.reference.toWalFormat entries plan.commit])
            ops := by
        rw [Db.commitAll, hplan]
        exact if_pos (fits_of_isSmall hsmall entries)
      exact hcommit.trans (ih h)
    · cases h

/-- A run of operations whose commits are all small. -/
theorem Synced.runAll_of_commitAllSmall {db after : Db} {entries entries' : List WalEntry}
    {ops : List Op} (h : Synced .reference db entries)
    (hops : db.commitAllSmall entries ops = some (after, entries')) :
    db.runAll .reference ops = after ∧ Synced .reference after entries' :=
  h.runAll_of_commitAll (Db.commitAll_of_small hops)

end TraceDB
