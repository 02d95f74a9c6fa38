import TraceDB.Core.Policy
import TraceDB.Engine.Reads

/-!
# Cursors

A paged read returns a cursor for its next page (`tracedb-query`).  With a signing key configured
the cursor is a token `tdbc1.PAYLOAD.SIGNATURE` that carries the offset, the epoch of the first page
and the scope of the read, and it is refused for any other scope; without a key it is the offset.

`resolve_encodeNextCursor` : a token that has not expired leads back to its offset and epoch.
-/

namespace TraceDB

/-- `CURSOR_TOKEN_PREFIX`. -/
def cursorTokenPrefix : String := "tdbc1"

/-- `CURSOR_VERSION`. -/
def cursorVersion : ℕ := 1

/-- `CursorScope`. -/
structure CursorScope where
  kind : String
  tenantId : String
  databaseId : String
  branchId : String
  actorDigest : String
  queryDigest : String
  limit : ℕ
  orderKey : String
  deriving DecidableEq

/-- `CursorState`. -/
structure CursorState where
  offset : ℕ
  snapshotEpoch : Epoch
  deriving DecidableEq

/-- `SignedCursorPayload`. -/
structure SignedCursorPayload where
  version : ℕ
  kind : String
  tenantId : String
  databaseId : String
  branchId : String
  actorDigest : String
  queryDigest : String
  snapshotEpoch : ℕ
  limit : ℕ
  orderKey : String
  offset : ℕ
  expiresAt : ℕ
  deriving DecidableEq

/-- The libraries that cursors rest on, with what they guarantee. -/
structure CursorFormat where
  /-- `URL_SAFE_NO_PAD.encode`. -/
  toBase64 : Bytes → String
  /-- `URL_SAFE_NO_PAD.decode`. -/
  ofBase64 : String → Option Bytes
  ofBase64_toBase64 : ∀ bs, ofBase64 (toBase64 bs) = some bs
  /-- The dot is not a digit of base 64. -/
  dot_not_mem_toBase64 : ∀ bs, '.' ∉ (toBase64 bs).toList
  /-- `serde_json` at `SignedCursorPayload`. -/
  payloadCodec : JsonCodec SignedCursorPayload
  /-- A payload holds strings and numbers only. -/
  payloadCodec_readsBack : ∀ payload, payloadCodec.ReadsBack payload
  /-- The error of `serde_json::from_slice` on bytes that are no payload. -/
  jsonError : Bytes → TraceDbError
  /-- HMAC-SHA256 of a message under a key. -/
  hmac : Bytes → Bytes → Bytes
  /-- `stable_body_hash`. -/
  stableBodyHash : Bytes → String
  /-- `to_string` of a JSON value. -/
  jsonToString : Value → String

/-- What a call reads from its environment. -/
structure CursorEnv where
  /-- `cursor_signing_key`. -/
  signingKey : Result (Option Bytes)
  /-- `cursor_ttl_secs`. -/
  ttlSecs : ℕ
  /-- `now_unix_secs`. -/
  nowSecs : ℕ

/-- `invalid_cursor`. -/
def invalidCursor (reason : String) : TraceDbError := .invalidCommand ("invalid cursor: " ++ reason)

variable (C : CursorFormat) (env : CursorEnv)

/-- The JSON of `cursor_actor_digest`, with its entries in the order of `serde_json::Map`. -/
def cursorActorValue (actor : ActorContext) : Value :=
  .object [("branch_id", .string actor.branchId), ("database_id", .string actor.databaseId),
    ("policy_epoch", .number (.posInt (.ofNat actor.policyEpoch))),
    ("scopes", .array (actor.scopes.map .string)), ("tenant_id", .string actor.tenantId),
    ("token_identity", .string actor.tokenIdentity)]

/-- `cursor_actor_digest`. -/
def cursorActorDigest (actor : ActorContext) : String :=
  C.stableBodyHash (utf8 (C.jsonToString (cursorActorValue actor)))

/-- `validate_signed_cursor_payload`. -/
def validateSignedCursorPayload (scope : CursorScope) (payload : SignedCursorPayload) :
    Result Unit :=
  if payload.version ≠ cursorVersion then .error (invalidCursor "unsupported version")
  else if payload.expiresAt < env.nowSecs then .error (invalidCursor "expired")
  else if payload.kind ≠ scope.kind then .error (invalidCursor "kind mismatch")
  else if payload.tenantId ≠ scope.tenantId then .error (invalidCursor "tenant mismatch")
  else if payload.databaseId ≠ scope.databaseId then .error (invalidCursor "database mismatch")
  else if payload.branchId ≠ scope.branchId then .error (invalidCursor "branch mismatch")
  else if payload.actorDigest ≠ scope.actorDigest then .error (invalidCursor "actor mismatch")
  else if payload.queryDigest ≠ scope.queryDigest then .error (invalidCursor "query mismatch")
  else if payload.limit ≠ scope.limit then .error (invalidCursor "limit mismatch")
  else if payload.orderKey ≠ scope.orderKey then .error (invalidCursor "ordering mismatch")
  else .ok ()

/-- `encode_signed_cursor`, with the key. -/
def encodeSignedCursor (key : Bytes) (payload : SignedCursorPayload) : String :=
  let payloadB64 := C.toBase64 (C.payloadCodec.encode payload)
  cursorTokenPrefix ++ "." ++ payloadB64 ++ "." ++ C.toBase64 (C.hmac key (utf8 payloadB64))

/-- The part of `decode_signed_cursor` after the token is split. -/
def verifySignedCursor (scope : CursorScope) (key : Bytes) (payloadB64 signatureB64 : String) :
    Result SignedCursorPayload :=
  match C.ofBase64 signatureB64 with
  | none => .error (invalidCursor "malformed signature")
  | some signature =>
    if C.hmac key (utf8 payloadB64) ≠ signature then .error (invalidCursor "signature mismatch")
    else
      match C.ofBase64 payloadB64 with
      | none => .error (invalidCursor "malformed payload")
      | some payloadBytes =>
        match C.payloadCodec.decode payloadBytes with
        | none => .error (C.jsonError payloadBytes)
        | some payload => do
          validateSignedCursorPayload env scope payload
          .ok payload

/-- `decode_signed_cursor`. -/
def decodeSignedCursor (scope : CursorScope) (token : String) : Result SignedCursorPayload := do
  match ← env.signingKey with
  | none => .error (.invalidCommand
      "TRACEDB_CURSOR_SIGNING_KEY_B64 is required to verify cursor")
  | some key =>
    match (token.toList.splitOn '.').map String.ofList with
    | [pre, payloadB64, signatureB64] =>
      if pre ≠ cursorTokenPrefix then .error (invalidCursor "malformed token")
      else verifySignedCursor C env scope key payloadB64 signatureB64
    | _ => .error (invalidCursor "malformed token")

/-- `resolve_cursor_state`. -/
def resolveCursorState (scope : CursorScope) (cursor : Option String) (latestEpoch : Epoch) :
    Result CursorState :=
  match cursor with
  | none => .ok ⟨0, latestEpoch⟩
  | some cursor =>
    if Text.startsWith cursor cursorTokenPrefix then do
      let payload ← decodeSignedCursor C env scope cursor
      .ok ⟨payload.offset, payload.snapshotEpoch⟩
    else do
      let key ← env.signingKey
      if key.isSome then .error (.invalidCommand "invalid cursor: signed cursor token is required")
      else do
        let offset ← parseLegacyCursorOffset (some cursor)
        .ok ⟨offset, latestEpoch⟩

/-- The payload of `encode_next_cursor`. -/
def nextPayload (scope : CursorScope) (offset : ℕ) (snapshotEpoch : Epoch) :
    SignedCursorPayload where
  version := cursorVersion
  kind := scope.kind
  tenantId := scope.tenantId
  databaseId := scope.databaseId
  branchId := scope.branchId
  actorDigest := scope.actorDigest
  queryDigest := scope.queryDigest
  snapshotEpoch := snapshotEpoch
  limit := scope.limit
  orderKey := scope.orderKey
  offset := offset
  expiresAt := saturatingAddU64 env.nowSecs env.ttlSecs

/-- `encode_next_cursor`. -/
def encodeNextCursor (scope : CursorScope) (offset : ℕ) (snapshotEpoch : Epoch) :
    Result String := do
  match ← env.signingKey with
  | none => .ok (toString offset)
  | some key => .ok (encodeSignedCursor C key (nextPayload env scope offset snapshotEpoch))

/-! ### Tokens lead back -/

variable {C} {env}

theorem split_encodeSignedCursor (key : Bytes) (payload : SignedCursorPayload) :
    ((encodeSignedCursor C key payload).toList.splitOn '.').map String.ofList =
      [cursorTokenPrefix, C.toBase64 (C.payloadCodec.encode payload),
        C.toBase64 (C.hmac key (utf8 (C.toBase64 (C.payloadCodec.encode payload))))] := by
  have hjoin : (encodeSignedCursor C key payload).toList = ['.'].intercalate
      [cursorTokenPrefix.toList, (C.toBase64 (C.payloadCodec.encode payload)).toList,
        (C.toBase64 (C.hmac key (utf8 (C.toBase64 (C.payloadCodec.encode payload))))).toList] := by
    simp [encodeSignedCursor, List.intercalate, String.toList_append]
  rw [hjoin, List.splitOn_intercalate]
  · simp
  · intro part hpart
    simp only [List.mem_cons, List.not_mem_nil, or_false] at hpart
    rcases hpart with rfl | rfl | rfl
    · decide
    · exact C.dot_not_mem_toBase64 _
    · exact C.dot_not_mem_toBase64 _
  · simp

theorem startsWith_encodeSignedCursor (key : Bytes) (payload : SignedCursorPayload) :
    Text.startsWith (encodeSignedCursor C key payload) cursorTokenPrefix = true := by
  rw [Text.startsWith_iff, encodeSignedCursor]
  simp only [String.toList_append, List.append_assoc]
  exact List.prefix_append _ _

theorem encodeNextCursor_of_key {key : Bytes} (hkey : env.signingKey = .ok (some key))
    (scope : CursorScope) (offset : ℕ) (snapshotEpoch : Epoch) :
    encodeNextCursor C env scope offset snapshotEpoch =
      .ok (encodeSignedCursor C key (nextPayload env scope offset snapshotEpoch)) := by
  rw [encodeNextCursor, hkey]
  rfl

/-- **A token leads back to its offset and epoch**: for the scope it was made for, with the same
key, until it expires. -/
theorem resolve_encodeNextCursor {env' : CursorEnv} {key : Bytes}
    (hkey : env.signingKey = .ok (some key)) (hkey' : env'.signingKey = .ok (some key))
    (hnow : env'.nowSecs ≤ saturatingAddU64 env.nowSecs env.ttlSecs) (scope : CursorScope)
    (offset : ℕ) (snapshotEpoch latestEpoch : Epoch) :
    ∃ token, encodeNextCursor C env scope offset snapshotEpoch = .ok token ∧
      resolveCursorState C env' scope (some token) latestEpoch = .ok ⟨offset, snapshotEpoch⟩ := by
  refine ⟨_, encodeNextCursor_of_key hkey scope offset snapshotEpoch, ?_⟩
  · have hvalid : validateSignedCursorPayload env' scope
        (nextPayload env scope offset snapshotEpoch) = .ok () := by
      simp [validateSignedCursorPayload, nextPayload, not_lt.2 hnow]
    have hverify : ∀ payloadB64,
        payloadB64 = C.toBase64
          (C.payloadCodec.encode (nextPayload env scope offset snapshotEpoch)) →
        verifySignedCursor C env' scope key payloadB64 (C.toBase64 (C.hmac key (utf8 payloadB64))) =
          .ok (nextPayload env scope offset snapshotEpoch) := by
      rintro payloadB64 rfl
      have hback : C.payloadCodec.decode (C.payloadCodec.encode _) = some _ :=
        C.payloadCodec_readsBack (nextPayload env scope offset snapshotEpoch)
      simp only [verifySignedCursor, C.ofBase64_toBase64, ne_eq, not_true_eq_false, if_false,
        hback, hvalid, Except.ok_bind]
    have hdecode : decodeSignedCursor C env' scope
        (encodeSignedCursor C key (nextPayload env scope offset snapshotEpoch)) =
          .ok (nextPayload env scope offset snapshotEpoch) := by
      rw [decodeSignedCursor, hkey', Except.ok_bind]
      dsimp only
      rw [split_encodeSignedCursor]
      dsimp only
      rw [if_neg (not_not.2 rfl)]
      exact hverify _ rfl
    rw [resolveCursorState, if_pos (startsWith_encodeSignedCursor _ _), hdecode]
    rfl

end TraceDB
