import TraceDB.Data.Sha256
import TraceDB.Log.Frame

/-!
# A reference format

The log is proved correct for every `WalFormat`.  This file gives one: SHA-256, and a lossless
serializer of commits assembled from stream codecs.  Results about concrete runs are stated for it.
-/

namespace TraceDB

namespace StreamCodec

/-! ### JSON values -/

/-- JSON numbers. -/
def number : StreamCodec Number :=
  (sum uint64 (sum uint64 uint64)).xmap
    (fun
      | .posInt n => .inl n
      | .negInt n => .inr (.inl n.toUInt64)
      | .float bits => .inr (.inr bits))
    (fun
      | .inl n => some (.posInt n)
      | .inr (.inl n) => some (.negInt n.toInt64)
      | .inr (.inr bits) => some (.float bits))
    (fun n => by cases n <;> simp)

mutual

/-- The bytes of a JSON value: a tag and the contents. -/
def encValue : Value → Bytes
  | .null => [0]
  | .bool b => 1 :: bool.enc b
  | .number n => 2 :: number.enc n
  | .string s => 3 :: string.enc s
  | .array items => 4 :: encValues items
  | .object fields => 5 :: encFields fields

/-- The bytes of the items of an array. -/
def encValues : List Value → Bytes
  | [] => [0]
  | v :: vs => 1 :: (encValue v ++ encValues vs)

/-- The bytes of the entries of an object. -/
def encFields : List (String × Value) → Bytes
  | [] => [0]
  | (k, v) :: fs => 1 :: (string.enc k ++ (encValue v ++ encFields fs))

end

mutual

/-- Reads `encValue`; the first argument bounds the depth. -/
def decValue : ℕ → Bytes → Option (Value × Bytes)
  | 0, _ => none
  | _ + 1, [] => none
  | fuel + 1, tag :: bs =>
    if tag = 0 then some (.null, bs)
    else if tag = 1 then (bool.dec bs).map fun p => (.bool p.1, p.2)
    else if tag = 2 then (number.dec bs).map fun p => (.number p.1, p.2)
    else if tag = 3 then (string.dec bs).map fun p => (.string p.1, p.2)
    else if tag = 4 then (decValues fuel bs).map fun p => (.array p.1, p.2)
    else (decFields fuel bs).map fun p => (.object p.1, p.2)

/-- Reads `encValues`. -/
def decValues : ℕ → Bytes → Option (List Value × Bytes)
  | 0, _ => none
  | _ + 1, [] => none
  | fuel + 1, tag :: bs =>
    if tag = 0 then some ([], bs)
    else
      match decValue fuel bs with
      | none => none
      | some (v, bs) => (decValues fuel bs).map fun p => (v :: p.1, p.2)

/-- Reads `encFields`. -/
def decFields : ℕ → Bytes → Option (List (String × Value) × Bytes)
  | 0, _ => none
  | _ + 1, [] => none
  | fuel + 1, tag :: bs =>
    if tag = 0 then some ([], bs)
    else
      match string.dec bs with
      | none => none
      | some (k, bs) =>
        match decValue fuel bs with
        | none => none
        | some (v, bs) => (decFields fuel bs).map fun p => ((k, v) :: p.1, p.2)

end

mutual

theorem decValue_encValue (v : Value) (fuel : ℕ) (h : (encValue v).length ≤ fuel) (rest : Bytes) :
    decValue fuel (encValue v ++ rest) = some (v, rest) := by
  obtain ⟨fuel, rfl⟩ : ∃ k, fuel = k + 1 :=
    ⟨fuel - 1, by cases v <;> simp [encValue] at h <;> omega⟩
  cases v with
  | null | bool _ | number _ | string _ => simp [encValue, decValue]
  | array items =>
    have ih := decValues_encValues items fuel (by simpa [encValue] using h) rest
    simp [encValue, decValue, ih]
  | object fields =>
    have ih := decFields_encFields fields fuel (by simpa [encValue] using h) rest
    simp [encValue, decValue, ih]

theorem decValues_encValues (vs : List Value) (fuel : ℕ) (h : (encValues vs).length ≤ fuel)
    (rest : Bytes) : decValues fuel (encValues vs ++ rest) = some (vs, rest) := by
  obtain ⟨fuel, rfl⟩ : ∃ k, fuel = k + 1 :=
    ⟨fuel - 1, by cases vs <;> simp [encValues] at h <;> omega⟩
  cases vs with
  | nil => simp [encValues, decValues]
  | cons v vs =>
    simp only [encValues, List.length_cons, List.length_append] at h
    have hv := decValue_encValue v fuel (by omega) (encValues vs ++ rest)
    have hvs := decValues_encValues vs fuel (by omega) rest
    simp [encValues, decValues, hv, hvs]

theorem decFields_encFields (fs : List (String × Value)) (fuel : ℕ)
    (h : (encFields fs).length ≤ fuel) (rest : Bytes) :
    decFields fuel (encFields fs ++ rest) = some (fs, rest) := by
  obtain ⟨fuel, rfl⟩ : ∃ k, fuel = k + 1 :=
    ⟨fuel - 1, by cases fs <;> simp [encFields] at h <;> omega⟩
  cases fs with
  | nil => simp [encFields, decFields]
  | cons f fs =>
    obtain ⟨k, v⟩ := f
    simp only [encFields, List.length_cons, List.length_append] at h
    have hv := decValue_encValue v fuel (by omega) (encFields fs ++ rest)
    have hfs := decFields_encFields fs fuel (by omega) rest
    simp [encFields, decFields, hv, hfs]

end

/-- JSON values. -/
def value : StreamCodec Value where
  enc := encValue
  dec bs := decValue bs.length bs
  dec_enc v rest := decValue_encValue v _ (by simp) rest

/-! ### Records -/

/-- Objects. -/
def fields : StreamCodec Fields := map string value

/-- `VectorColumnSchema`. -/
def vectorColumnSchema : StreamCodec VectorColumnSchema :=
  (prod string (prod nat (list string))).xmap (fun v => (v.name, v.dimensions, v.sourceColumns))
    (fun p => some ⟨p.1, p.2.1, p.2.2⟩) (fun _ => rfl)

/-- `TableSchema`. -/
def tableSchema : StreamCodec TableSchema :=
  (prod string (prod string (prod string (prod (list string) (prod (list string)
    (list vectorColumnSchema)))))).xmap
    (fun s => (s.name, s.primaryIdColumn, s.tenantIdColumn, s.scalarColumns, s.textIndexedColumns,
      s.vectorColumns))
    (fun p => some ⟨p.1, p.2.1, p.2.2.1, p.2.2.2.1, p.2.2.2.2.1, p.2.2.2.2.2⟩) (fun _ => rfl)

/-- `RecordInput`. -/
def recordInput : StreamCodec RecordInput :=
  (prod string (prod string (prod string fields))).xmap
    (fun r => (r.table, r.id, r.tenantId, r.fields))
    (fun p => some ⟨p.1, p.2.1, p.2.2.1, p.2.2.2⟩) (fun _ => rfl)

/-- `RecordDeletion`. -/
def recordDeletion : StreamCodec RecordDeletion :=
  (prod string (prod string (prod string string))).xmap
    (fun r => (r.table, r.id, r.tenantId, r.tombstone))
    (fun p => some ⟨p.1, p.2.1, p.2.2.1, p.2.2.2⟩) (fun _ => rfl)

/-- `FeatureStatus`. -/
def featureStatus : StreamCodec FeatureStatus :=
  nat.xmap FeatureStatus.ctorIdx (fun n => some (FeatureStatus.ofNat n))
    (fun s => by cases s <;> rfl)

/-- `FeatureInvalidation`. -/
def featureInvalidation : StreamCodec FeatureInvalidation :=
  (prod string (prod string (prod string (prod string featureStatus)))).xmap
    (fun i => (i.table, i.tenantId, i.recordId, i.feature, i.status))
    (fun p => some ⟨p.1, p.2.1, p.2.2.1, p.2.2.2.1, p.2.2.2.2⟩) (fun _ => rfl)

/-- `ModuleCommitEvent`. -/
def moduleCommitEvent : StreamCodec ModuleCommitEvent :=
  (prod string string).xmap (fun e => (e.moduleId, e.event)) (fun p => some ⟨p.1, p.2⟩)
    (fun _ => rfl)

/-- `IdempotencyReceipt`. -/
def idempotencyReceipt : StreamCodec IdempotencyReceipt :=
  (prod string (prod string (prod string (prod string (prod string (prod string (prod string
    (prod string string)))))))).xmap
    (fun r => (r.method, r.path, r.key, r.bodyHash, r.actorTenantId, r.databaseId, r.branchId,
      r.tokenIdentity, r.response))
    (fun p => some ⟨p.1, p.2.1, p.2.2.1, p.2.2.2.1, p.2.2.2.2.1, p.2.2.2.2.2.1, p.2.2.2.2.2.2.1,
      p.2.2.2.2.2.2.2.1, p.2.2.2.2.2.2.2.2⟩)
    (fun _ => rfl)

/-! ### Jobs -/

/-- `JobKind`. -/
def jobKind : StreamCodec JobKind :=
  nat.xmap JobKind.ctorIdx (fun n => some (JobKind.ofNat n)) (fun s => by cases s <;> rfl)

/-- `JobStatus`. -/
def jobStatus : StreamCodec JobStatus :=
  nat.xmap JobStatus.ctorIdx (fun n => some (JobStatus.ofNat n)) (fun s => by cases s <;> rfl)

/-- `TraceJob`. -/
def traceJob : StreamCodec TraceJob :=
  (prod (prod string (prod jobKind (prod string (prod string (prod (option string)
    (prod uint32 uint32))))))
    (prod jobStatus (prod (option string) (prod (option string) (prod (option nat)
      (prod (option nat) (prod (option string) (option digest)))))))).xmap
    (fun j => ((j.jobId, j.kind, j.target, j.idempotencyKey, j.leaseOwner, j.attempts,
      j.maxAttempts), (j.status, j.lastError, j.leaseToken, j.leaseExpiresAtMs,
      j.nextAttemptAfterMs, j.artifactPath, j.artifactChecksum)))
    (fun ⟨⟨jobId, kind, target, key, owner, attempts, maxAttempts⟩,
        ⟨status, error, token, expires, next, path, checksum⟩⟩ =>
      some ⟨jobId, kind, target, key, owner, attempts, maxAttempts, status, error, token, expires,
        next, path, checksum⟩)
    (fun _ => rfl)

/-- `JobEvent`. -/
def jobEvent : StreamCodec JobEvent :=
  (sum traceJob (sum (prod string (prod string (prod string nat)))
    (sum (prod string (prod string nat)) (sum (prod string string)
      (prod string (prod (option string) (prod string (prod bool nat)))))))).xmap
    (fun
      | .enqueued job => .inl job
      | .leased jobId workerId token expires => .inr (.inl (jobId, workerId, token, expires))
      | .heartbeat jobId token expires => .inr (.inr (.inl (jobId, token, expires)))
      | .completed jobId token => .inr (.inr (.inr (.inl (jobId, token))))
      | .failed jobId token error permanent next =>
        .inr (.inr (.inr (.inr (jobId, token, error, permanent, next)))))
    (fun
      | .inl job => some (.enqueued job)
      | .inr (.inl (jobId, workerId, token, expires)) =>
        some (.leased jobId workerId token expires)
      | .inr (.inr (.inl (jobId, token, expires))) => some (.heartbeat jobId token expires)
      | .inr (.inr (.inr (.inl (jobId, token)))) => some (.completed jobId token)
      | .inr (.inr (.inr (.inr (jobId, token, error, permanent, next)))) =>
        some (.failed jobId token error permanent next))
    (fun e => by cases e <;> rfl)

/-- `CommitRecord`. -/
def commitRecord : StreamCodec CommitRecord :=
  (prod (prod string (prod string (prod nat (prod nat (prod nat (prod digest
    (prod (option string) (prod nat nat))))))))
    (prod (list tableSchema) (prod (list recordInput) (prod (list recordInput)
      (prod (list recordDeletion) (prod (list featureInvalidation) (prod (list moduleCommitEvent)
        (prod (list idempotencyReceipt) (prod (list jobEvent) string))))))))).xmap
    (fun c => ((c.databaseId, c.branchId, c.transactionId, c.epoch, c.parentEpoch,
      c.previousCommitHash, c.idempotencyKey, c.schemaEpoch, c.policyEpoch),
      (c.schemaChanges, c.replacements, c.mutations, c.deletions, c.featureInvalidations,
        c.moduleEvents, c.idempotencyReceipts, c.jobEvents, c.commitMarker)))
    (fun ⟨⟨databaseId, branchId, transactionId, epoch, parentEpoch, hash, key, schemaEpoch,
        policyEpoch⟩, ⟨schemas, replacements, mutations, deletions, invalidations, events, receipts,
        jobs, marker⟩⟩ =>
      some ⟨databaseId, branchId, transactionId, epoch, parentEpoch, hash, key, schemaEpoch,
        policyEpoch, schemas, replacements, mutations, deletions, invalidations, events, receipts,
        jobs, marker⟩)
    (fun _ => rfl)

end StreamCodec

/-- The reference format of the log. -/
def WalFormat.reference : WalFormat where
  checksumBytes := sha256
  commitCodec := StreamCodec.commitRecord.toJson

instance : WalFormat.reference.Lossless := ⟨StreamCodec.readsBack_toJson _⟩

end TraceDB
