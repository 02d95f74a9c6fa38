import TraceDB.Data.Base64
import TraceDB.Engine.Replay
import TraceDB.Query.Cursor

/-!
# Sample handles

A reference for the library functions that cursors rest on, and a handle on a small table of cases.
-/

namespace TraceDB

/-- A codec of `SignedCursorPayload`. -/
def StreamCodec.signedCursorPayload : StreamCodec SignedCursorPayload :=
  (prod nat (prod string (prod string (prod string (prod string (prod string (prod string (prod nat
    (prod nat (prod string (prod nat nat))))))))))).xmap
    (fun p => (p.version, p.kind, p.tenantId, p.databaseId, p.branchId, p.actorDigest,
      p.queryDigest, p.snapshotEpoch, p.limit, p.orderKey, p.offset, p.expiresAt))
    (fun ⟨version, kind, tenantId, databaseId, branchId, actorDigest, queryDigest, snapshotEpoch,
        limit, orderKey, offset, expiresAt⟩ =>
      some ⟨version, kind, tenantId, databaseId, branchId, actorDigest, queryDigest, snapshotEpoch,
        limit, orderKey, offset, expiresAt⟩)
    (fun _ => rfl)

/-- The reference format of cursors. -/
def CursorFormat.reference : CursorFormat where
  toBase64 := Base64.encode
  ofBase64 := Base64.decode
  ofBase64_toBase64 := Base64.decode_encode
  dot_not_mem_toBase64 := Base64.dot_not_mem_encode
  payloadCodec := StreamCodec.signedCursorPayload.toJson
  payloadCodec_readsBack := StreamCodec.readsBack_toJson _
  jsonError _ := .json
  hmac key message := (hmacSha256 key message).bytes
  stableBodyHash bytes := "sha256:" ++ String.join ((sha256 bytes).bytes.map hexByte)
  jsonToString := Value.text

/-- A table of cases with a state. -/
def casesSchema : TableSchema := ⟨"cases", "id", "tenant", ["state"], ["body"], []⟩

/-- A case of the tenant `t`. -/
def sampleCase (id : String) (fields : List (String × Value)) : RecordInput :=
  ⟨"cases", id, "t", fields.foldl (fun fs e => fs.insert e.1 e.2) ∅⟩

/-- The handle with the cases. -/
def casesDb (cases : List RecordInput) : Db :=
  (initialDb .reference "db").runAll .reference
    [.applySchema casesSchema none, .putBatch cases none]

theorem reachable_casesDb (cases : List RecordInput) :
    Reachable .reference "db" (casesDb cases) :=
  (Reachable.opened (open_empty_eq "db")).runAll _

/-- What the handle shows, by evaluation. -/
theorem casesDb_shows (cases : List RecordInput) {P : Db → Prop} [DecidablePred P]
    (h : (((initialDb .reference "db").commitAllSmall []
      [.applySchema casesSchema none, .putBatch cases none]).any fun after => decide (P after.1)) =
        true) : P (casesDb cases) := by
  obtain ⟨⟨after, entries⟩, hcommits, hP⟩ := (Option.any_eq_true _ _).1 h
  rw [casesDb, ((synced_initialDb "db").runAll_of_commitAllSmall hcommits).1]
  exact of_decide_eq_true hP

end TraceDB
