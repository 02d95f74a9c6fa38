import TraceDB.Query.Samples

/-!
# The integrity of cursors

With a signing key configured, a cursor should continue only the read that it was made for.  The
token carries the scope of the read, with digests of the actor and of the request, under a tag that
only the holder of the key can make.

* `cursorActorValue_eq_iff`, `cursorScanValue_eq_iff` : what the texts under the digests have in
  them.
* `scope_eq_iff` : requests have one scope just when they have one view of the data.
* `cursor_integrity` : what is accepted was made for the same view, and leads back to its offset and
  epoch.
* `user_not_compared` : the digest of an actor leaves out the user id.
-/

namespace TraceDB

variable {S : Type}

/-- The parts of an actor that a cursor is bound to. -/
def ActorContext.digested (actor : ActorContext) : ActorContext := { actor with userId := "" }

/-- A request that is paged, with its actor. -/
inductive PagedRequest (S : Type) where
  | scan (actor : ActorContext) (request : RecordScanRequest)
  | query (actor : ActorContext) (hybrid : HybridQuery S)

/-- What is read, apart from the page. -/
inductive PagedTarget where
  | table (table tenantId : String)
  | text (query : String)

/-- What a cursor should be bound to. -/
structure PagedView where
  kind : String
  tenantId : String
  databaseId : String
  branchId : String
  actor : ActorContext
  limit : ℕ
  orderKey : String
  target : PagedTarget

namespace PagedRequest

variable (Q : QueryFormat S)

/-- The actor of a request. -/
def actor : PagedRequest S → ActorContext
  | .scan actor _ => actor
  | .query actor _ => actor

/-- The text that the digest of a request is taken of. -/
def digestText : PagedRequest S → String
  | .scan _ request => Q.jsonToString (cursorScanValue request)
  | .query _ hybrid => Q.queryText { hybrid with cursor := none }

/-- The JSON values under the digests of a request. -/
def digestValues : PagedRequest S → List Value
  | .scan actor request => [cursorActorValue actor, cursorScanValue request]
  | .query actor _ => [cursorActorValue actor]

/-- The scope in which a request resolves its cursor and makes the next one. -/
def scope : PagedRequest S → CursorScope
  | .scan actor request => cursorScopeForScan Q.toCursorFormat actor request (max request.limit 1)
  | .query actor hybrid => cursorScopeForQuery Q actor hybrid (max hybrid.topK 1)

/-- The view of a request. -/
def view : PagedRequest S → PagedView
  | .scan actor request => ⟨"scan", request.tenantId, actor.databaseId, actor.branchId,
      actor.digested, max request.limit 1, "record_id_asc", .table request.table request.tenantId⟩
  | .query actor hybrid => ⟨"query", hybrid.tenantId, actor.databaseId, actor.branchId,
      actor.digested, max hybrid.topK 1, "ranked",
      .text (Q.queryText { hybrid with cursor := none })⟩

end PagedRequest

/-- A cursor that was made. -/
structure CursorIssue (S : Type) where
  request : PagedRequest S
  env : CursorEnv
  offset : ℕ
  snapshotEpoch : Epoch

namespace CursorIssue

variable (Q : QueryFormat S) (issue : CursorIssue S)

/-- The last second at which the cursor is good. -/
def expiresAt : ℕ := saturatingAddU64 issue.env.nowSecs issue.env.ttlSecs

/-- The part of the token that is signed. -/
def payloadB64 : String :=
  Q.toBase64 (Q.payloadCodec.encode
    (nextPayload issue.env (issue.request.scope Q) issue.offset issue.snapshotEpoch))

/-- A token is the one that was made, up to the way in which the bytes of the tag are written. -/
def IsToken (key : Bytes) (token : String) : Prop :=
  ∃ signatureB64, token = cursorTokenPrefix ++ "." ++ issue.payloadB64 Q ++ "." ++ signatureB64 ∧
    Q.ofBase64 signatureB64 = some (Q.hmac key (utf8 (issue.payloadB64 Q)))

end CursorIssue

/-- A token shows no tag of a message that was not signed. -/
def Unforged (C : CursorFormat) (key : Bytes) (signed : String → Prop) (token : String) : Prop :=
  ∀ pre message tag, (token.toList.splitOn '.').map String.ofList = [pre, message, tag] →
    C.ofBase64 tag = some (C.hmac key (utf8 message)) → signed message

/-- What is assumed of some requests: their digests are different where the texts are, the JSON
texts of values read back, and a policy epoch is a `u64`. -/
structure ToldApart (Q : QueryFormat S) (requests : PagedRequest S → Prop) : Prop where
  actor_hash : ∀ r r', requests r → requests r' →
    cursorActorDigest Q.toCursorFormat r.actor = cursorActorDigest Q.toCursorFormat r'.actor →
      Q.jsonToString (cursorActorValue r.actor) = Q.jsonToString (cursorActorValue r'.actor)
  request_hash : ∀ r r', requests r → requests r' →
    Q.stableBodyHash (utf8 (r.digestText Q)) = Q.stableBodyHash (utf8 (r'.digestText Q)) →
      r.digestText Q = r'.digestText Q
  value_text : ∀ r r', requests r → requests r' → ∀ v ∈ r.digestValues, ∀ v' ∈ r'.digestValues,
    Q.jsonToString v = Q.jsonToString v' → v = v'
  policyEpoch_lt : ∀ r, requests r → r.actor.policyEpoch < 2 ^ 64

/-! ### What the digests are taken of -/

theorem map_string_inj {texts texts' : List String}
    (h : texts.map Value.string = texts'.map Value.string) : texts = texts' :=
  List.map_injective_iff.2 (fun _ _ => Value.string.inj) h

theorem ofNat_posInt_inj {n n' : ℕ} (hn : n < 2 ^ 64) (hn' : n' < 2 ^ 64)
    (h : Value.number (.posInt (.ofNat n)) = .number (.posInt (.ofNat n'))) : n = n' := by
  have hwords := congrArg UInt64.toNat (Number.posInt.inj (Value.number.inj h))
  rwa [UInt64.toNat_ofNat_of_lt' hn, UInt64.toNat_ofNat_of_lt' hn'] at hwords

/-- **What is in the digest of an actor**: everything but the user id. -/
theorem cursorActorValue_eq_iff {actor actor' : ActorContext} (hepoch : actor.policyEpoch < 2 ^ 64)
    (hepoch' : actor'.policyEpoch < 2 ^ 64) :
    cursorActorValue actor = cursorActorValue actor' ↔ actor.digested = actor'.digested := by
  obtain ⟨tenantId, userId, databaseId, branchId, tokenIdentity, policyEpoch, scopes⟩ := actor
  obtain ⟨tenantId', userId', databaseId', branchId', tokenIdentity', policyEpoch', scopes'⟩ :=
    actor'
  constructor
  · intro h
    simp only [cursorActorValue, Value.object.injEq, List.cons.injEq, Prod.mk.injEq, true_and,
      and_true] at h
    obtain ⟨hbranch, hdatabase, hepochs, hscopes, htenant, htoken⟩ := h
    obtain rfl := Value.string.inj hbranch
    obtain rfl := Value.string.inj hdatabase
    obtain rfl := ofNat_posInt_inj hepoch hepoch' hepochs
    obtain rfl := map_string_inj (Value.array.inj hscopes)
    obtain rfl := Value.string.inj htenant
    obtain rfl := Value.string.inj htoken
    rfl
  · intro h
    simp only [ActorContext.digested, ActorContext.mk.injEq, true_and] at h
    obtain ⟨rfl, rfl, rfl, rfl, rfl, rfl⟩ := h
    rfl

/-- **What is in the digest of a scan**: the table and the tenant. -/
theorem cursorScanValue_eq_iff {request request' : RecordScanRequest} :
    cursorScanValue request = cursorScanValue request' ↔
      request.table = request'.table ∧ request.tenantId = request'.tenantId := by
  simp [cursorScanValue]

/-! ### Scopes and views -/

section Digests

variable {Q : QueryFormat S} {requests : PagedRequest S → Prop} (h : ToldApart Q requests)
  {r r' : PagedRequest S}

theorem PagedRequest.actorValue_mem (r : PagedRequest S) :
    cursorActorValue r.actor ∈ r.digestValues := by
  cases r <;> exact List.mem_cons_self

include h

theorem ToldApart.mono {fewer : PagedRequest S → Prop} (hfewer : ∀ r, fewer r → requests r) :
    ToldApart Q fewer where
  actor_hash r r' hr hr' := h.actor_hash r r' (hfewer r hr) (hfewer r' hr')
  request_hash r r' hr hr' := h.request_hash r r' (hfewer r hr) (hfewer r' hr')
  value_text r r' hr hr' := h.value_text r r' (hfewer r hr) (hfewer r' hr')
  policyEpoch_lt r hr := h.policyEpoch_lt r (hfewer r hr)

theorem ToldApart.actor_digest_iff (hr : requests r) (hr' : requests r') :
    cursorActorDigest Q.toCursorFormat r.actor = cursorActorDigest Q.toCursorFormat r'.actor ↔
      r.actor.digested = r'.actor.digested := by
  rw [← cursorActorValue_eq_iff (h.policyEpoch_lt r hr) (h.policyEpoch_lt r' hr')]
  refine ⟨fun hdigest => ?_, fun hsame => by rw [cursorActorDigest, cursorActorDigest, hsame]⟩
  exact h.value_text r r' hr hr' _ r.actorValue_mem _ r'.actorValue_mem
    (h.actor_hash r r' hr hr' hdigest)

theorem ToldApart.request_digest_iff (hr : requests r) (hr' : requests r') :
    Q.stableBodyHash (utf8 (r.digestText Q)) = Q.stableBodyHash (utf8 (r'.digestText Q)) ↔
      r.digestText Q = r'.digestText Q :=
  ⟨h.request_hash r r' hr hr', fun hsame => by rw [hsame]⟩

theorem ToldApart.scan_digest_iff {actor actor' : ActorContext}
    {request request' : RecordScanRequest} (hr : requests (.scan actor request))
    (hr' : requests (.scan actor' request')) :
    Q.stableBodyHash (utf8 (Q.jsonToString (cursorScanValue request))) =
        Q.stableBodyHash (utf8 (Q.jsonToString (cursorScanValue request'))) ↔
      request.table = request'.table ∧ request.tenantId = request'.tenantId := by
  refine (h.request_digest_iff hr hr').trans ?_
  rw [← cursorScanValue_eq_iff]
  have hmem : ∀ (actor : ActorContext) (request : RecordScanRequest),
      cursorScanValue request ∈ (PagedRequest.scan (S := S) actor request).digestValues :=
    fun actor request => List.mem_cons_of_mem _ List.mem_cons_self
  exact ⟨h.value_text _ _ hr hr' _ (hmem actor request) _ (hmem actor' request'),
    fun hsame => by simp only [PagedRequest.digestText, hsame]⟩

/-- **Requests have one scope just when they have one view.** -/
theorem scope_eq_iff (hr : requests r) (hr' : requests r') :
    r.scope Q = r'.scope Q ↔ r.view Q = r'.view Q := by
  have hactor := h.actor_digest_iff hr hr'
  cases r with
  | scan actor request =>
    cases r' with
    | scan actor' request' =>
      have htable := h.scan_digest_iff hr hr'
      simp only [PagedRequest.actor] at hactor
      simp only [PagedRequest.scope, PagedRequest.view, cursorScopeForScan, CursorScope.mk.injEq,
        PagedView.mk.injEq, PagedTarget.table.injEq, hactor, htable]
      tauto
    | query actor' hybrid' =>
      simp [PagedRequest.scope, PagedRequest.view, cursorScopeForScan, cursorScopeForQuery]
  | query actor hybrid =>
    cases r' with
    | scan actor' request' =>
      simp [PagedRequest.scope, PagedRequest.view, cursorScopeForScan, cursorScopeForQuery]
    | query actor' hybrid' =>
      have hrequest := h.request_digest_iff hr hr'
      simp only [PagedRequest.actor, PagedRequest.digestText] at hactor hrequest
      simp only [PagedRequest.scope, PagedRequest.view, cursorScopeForQuery, CursorScope.mk.injEq,
        PagedView.mk.injEq, PagedTarget.text.injEq, hactor, hrequest]
      tauto

end Digests

/-! ### Tokens -/

/-- A payload is valid for a scope if it was made for it and has not expired. -/
theorem validate_nextPayload_eq_ok_iff {env env' : CursorEnv}
    {scope scope' : CursorScope} {offset : ℕ} {snapshotEpoch : Epoch} :
    validateSignedCursorPayload env' scope' (nextPayload env scope offset snapshotEpoch) = .ok () ↔
      env'.nowSecs ≤ saturatingAddU64 env.nowSecs env.ttlSecs ∧ scope = scope' := by
  cases scope
  cases scope'
  rw [validateSignedCursorPayload]
  repeat rw [Except.guard_eq_ok_iff]
  simp only [nextPayload, CursorScope.mk.injEq, ne_eq, not_not, not_lt, true_and, and_true]

/-- **What is accepted was signed**: the token has a payload, and the tag of the payload, in its
three parts. -/
theorem resolve_eq_ok {C : CursorFormat} {env : CursorEnv} {key : Bytes}
    (hkey : env.signingKey = .ok (some key)) {scope : CursorScope} {token : String}
    {latestEpoch : Epoch} {state : CursorState}
    (h : resolveCursorState C env scope (some token) latestEpoch = .ok state) :
    ∃ payloadB64 signatureB64 payload, (token.toList.splitOn '.').map String.ofList =
        [cursorTokenPrefix, payloadB64, signatureB64] ∧
      C.ofBase64 signatureB64 = some (C.hmac key (utf8 payloadB64)) ∧
      (C.ofBase64 payloadB64).bind C.payloadCodec.decode = some payload ∧
      validateSignedCursorPayload env scope payload = .ok () ∧
      state = ⟨payload.offset, payload.snapshotEpoch⟩ := by
  rw [resolveCursorState] at h
  split_ifs at h with hstarts
  · obtain ⟨payload, hdecode, hstate⟩ := Except.bind_eq_ok_iff.1 h
    rw [decodeSignedCursor, hkey, Except.ok_bind] at hdecode
    dsimp only at hdecode
    split at hdecode
    · rename_i pre payloadB64 signatureB64 hsplit
      obtain ⟨hpre, hverify⟩ := Except.guard_eq_ok_iff.1 hdecode
      rw [verifySignedCursor] at hverify
      cases hsignature : C.ofBase64 signatureB64 with
      | none => simp [hsignature] at hverify
      | some signature =>
        simp only [hsignature] at hverify
        obtain ⟨htag, hpayload⟩ := Except.guard_eq_ok_iff.1 hverify
        cases hbytes : C.ofBase64 payloadB64 with
        | none => simp [hbytes] at hpayload
        | some payloadBytes =>
          simp only [hbytes] at hpayload
          cases hdecoded : C.payloadCodec.decode payloadBytes with
          | none => simp [hdecoded] at hpayload
          | some decoded =>
            simp only [hdecoded] at hpayload
            obtain ⟨_, hvalid, hsame⟩ := Except.bind_eq_ok_iff.1 hpayload
            obtain rfl := Except.ok.inj hsame
            refine ⟨payloadB64, signatureB64, decoded, ?_, ?_, ?_, hvalid,
              (Except.ok.inj hstate).symm⟩
            · rw [hsplit, not_not.1 hpre]
            · rw [hsignature, not_not.1 htag]
            · rw [hbytes, Option.bind_some, hdecoded]
    · cases hdecode
  · -- With a key, a cursor that is no token is refused.
    rw [hkey, Except.ok_bind] at h
    cases h

/-- The parts of a token make it up. -/
theorem eq_of_split {token a b c : String}
    (h : (token.toList.splitOn '.').map String.ofList = [a, b, c]) :
    token = a ++ "." ++ b ++ "." ++ c := by
  have hparts : token.toList.splitOn '.' = [a.toList, b.toList, c.toList] := by
    have hmap := congrArg (List.map String.toList) h
    simpa [Function.comp_def] using hmap
  have hjoin : ['.'].intercalate (token.toList.splitOn '.') = token.toList :=
    List.intercalate_splitOn '.'
  rw [hparts] at hjoin
  rw [← String.toList_inj, ← hjoin]
  simp [List.intercalate, String.toList_append]

/-! ### Integrity -/

/-- **Cursors keep their integrity.**  With a signing key configured, a token that shows no forged
tag is accepted only if it was made under the key for the same view and has not expired, and it
leads back to its offset and epoch; and every token that was made for the view is accepted until it
expires. -/
theorem cursor_integrity {Q : QueryFormat S} {env : CursorEnv} {key : Bytes}
    (hkey : env.signingKey = .ok (some key)) {issued : CursorIssue S → Prop}
    (hissued : ∀ issue, issued issue → issue.env.signingKey = .ok (some key))
    {request : PagedRequest S} (happart : ToldApart Q fun r => r = request ∨ ∃ issue, issued issue ∧
      r = issue.request) (latestEpoch : Epoch) :
    (∀ token state, Unforged Q.toCursorFormat key (fun message => ∃ issue, issued issue ∧
      message = issue.payloadB64 Q) token →
      resolveCursorState Q.toCursorFormat env (request.scope Q)
      (some token) latestEpoch = .ok state →
        ∃ issue, issued issue ∧ issue.IsToken Q key token ∧ issue.request.view Q = request.view Q ∧
          env.nowSecs ≤ issue.expiresAt ∧ state = ⟨issue.offset, issue.snapshotEpoch⟩) ∧
      ∀ issue, issued issue → issue.request.view Q = request.view Q →
      env.nowSecs ≤ issue.expiresAt →
        ∃ token, encodeNextCursor Q.toCursorFormat issue.env (issue.request.scope Q)
          issue.offset issue.snapshotEpoch =
            .ok token ∧ issue.IsToken Q key token ∧
          resolveCursorState Q.toCursorFormat env (request.scope Q) (some token) latestEpoch =
            .ok ⟨issue.offset, issue.snapshotEpoch⟩ := by
  constructor
  · intro token state hunforged haccepted
    obtain ⟨payloadB64, signatureB64, payload, hsplit, htag, hpayload, hvalid, rfl⟩ :=
      resolve_eq_ok hkey haccepted
    obtain ⟨issue, hissue, rfl⟩ := hunforged _ _ _ hsplit htag
    rw [CursorIssue.payloadB64, Q.ofBase64_toBase64, Option.bind_some,
      Q.payloadCodec_readsBack] at hpayload
    obtain rfl := Option.some.inj hpayload
    obtain ⟨hnow, hscope⟩ := validate_nextPayload_eq_ok_iff.1 hvalid
    have hview := (scope_eq_iff happart (.inr ⟨issue, hissue, rfl⟩) (.inl rfl)).1 hscope
    exact ⟨issue, hissue, ⟨signatureB64, eq_of_split hsplit, htag⟩, hview, hnow, rfl⟩
  · intro issue hissue hview hnow
    have hscope := (scope_eq_iff happart (.inr ⟨issue, hissue, rfl⟩) (.inl rfl)).2 hview
    obtain ⟨token, htoken, haccepted⟩ := resolve_encodeNextCursor (C := Q.toCursorFormat)
      (hissued issue hissue) hkey hnow
      (issue.request.scope Q) issue.offset issue.snapshotEpoch latestEpoch
    rw [hscope] at haccepted
    refine ⟨token, htoken, ?_, haccepted⟩
    have htoken' := encodeNextCursor_of_key (C := Q.toCursorFormat) (hissued issue hissue)
      (issue.request.scope Q) issue.offset issue.snapshotEpoch
    rw [htoken] at htoken'
    exact ⟨_, Except.ok.inj htoken', Q.ofBase64_toBase64 _⟩

/-- A server with a signing key. -/
def signingEnv : CursorEnv := ⟨.ok (some (List.replicate 32 7)), 900, 1000⟩

/-- A scan of the table of cases, in pages of one. -/
def casesScan (actor : ActorContext) : PagedRequest ℚ := .scan actor ⟨"cases", "t", 1, none⟩

/-- The cursor of a user after the first page. -/
def aliceIssue : CursorIssue ℚ := ⟨casesScan (.tenantUser "t" "alice"), signingEnv, 1, 2⟩

/-- The same scan, by another user. -/
def bobScan : PagedRequest ℚ := casesScan (.tenantUser "t" "bob")

theorem toldApart_sample :
    ToldApart .reference fun r => r ∈ [aliceIssue.request, bobScan] := by
  have hhash : ∀ actor ∈ [aliceIssue.request.actor, bobScan.actor],
      ∀ actor' ∈ [aliceIssue.request.actor, bobScan.actor],
        cursorActorDigest .reference actor = cursorActorDigest .reference actor' →
        actor = actor' := by
    decide +kernel
  have htext : ∀ v ∈ aliceIssue.request.digestValues ++ bobScan.digestValues,
      ∀ v' ∈ aliceIssue.request.digestValues ++ bobScan.digestValues,
        v.text = v'.text → v = v' := by
    decide +kernel
  have hactor : ∀ r ∈ [aliceIssue.request, bobScan],
      r.actor ∈ [aliceIssue.request.actor, bobScan.actor] :=
    fun r hr => List.mem_map_of_mem hr
  have hvalues : ∀ r ∈ [aliceIssue.request, bobScan],
      ∀ v ∈ r.digestValues, v ∈ aliceIssue.request.digestValues ++ bobScan.digestValues := by
    simp only [List.forall_mem_cons, List.mem_append]
    exact ⟨fun v hv => .inl hv, fun v hv => .inr hv, fun _ hnil => absurd hnil List.not_mem_nil⟩
  have hdigest : ∀ r ∈ [aliceIssue.request, bobScan],
      r.digestText .reference = bobScan.digestText .reference := by
    intro r hr
    rcases List.mem_cons.1 hr with rfl | hr
    · rfl
    · rw [List.mem_singleton.1 hr]
  have hepoch : ∀ r ∈ [aliceIssue.request, bobScan], r.actor.policyEpoch < 2 ^ 64 := by
    simp only [List.forall_mem_cons]
    exact ⟨by decide, by decide, fun _ hnil => absurd hnil List.not_mem_nil⟩
  refine ⟨fun r r' hr hr' h => ?_, fun r r' hr hr' _ => ?_, fun r r' hr hr' v hv v' hv' h => ?_,
    hepoch⟩
  · rw [hhash _ (hactor r hr) _ (hactor r' hr') h]
  · rw [hdigest r hr, hdigest r' hr']
  · exact htext v (hvalues r hr v hv) v' (hvalues r' hr' v' hv') h

theorem cursor_integrity_alice :
    (∀ token, Unforged .reference (List.replicate 32 7)
        (fun message => ∃ issue, issue = aliceIssue ∧ message = issue.payloadB64 .reference) token →
      ∀ state, resolveCursorState .reference signingEnv (bobScan.scope .reference) (some token) 5 ≠
        .ok state) ∧
      ∃ token, encodeNextCursor .reference signingEnv (aliceIssue.request.scope .reference) 1 2 =
          .ok token ∧
        resolveCursorState .reference signingEnv (aliceIssue.request.scope .reference)
        (some token) 5 =
          .ok ⟨1, 2⟩ := by
  have hissued : ∀ issue, issue = aliceIssue →
      issue.env.signingKey = .ok (some (List.replicate 32 7)) := by
    rintro issue rfl
    rfl
  have hkey : signingEnv.signingKey = .ok (some (List.replicate 32 7)) := rfl
  have hbob : ToldApart .reference
      fun r => r = bobScan ∨ ∃ issue, issue = aliceIssue ∧ r = issue.request := by
    refine toldApart_sample.mono ?_
    rintro r (rfl | ⟨issue, rfl, rfl⟩)
    · exact List.mem_cons_of_mem _ List.mem_cons_self
    · exact List.mem_cons_self
  have halice : ToldApart .reference
      fun r => r = aliceIssue.request ∨ ∃ issue, issue = aliceIssue ∧ r = issue.request := by
    refine toldApart_sample.mono ?_
    rintro r (rfl | ⟨issue, rfl, rfl⟩) <;> exact List.mem_cons_self
  constructor
  · intro token hunforged state haccepted
    obtain ⟨issue, rfl, -, hview, -⟩ :=
      (cursor_integrity hkey hissued hbob 5).1 token state hunforged haccepted
    have hactor : aliceIssue.request.actor.digested = bobScan.actor.digested :=
      congrArg PagedView.actor hview
    revert hactor
    decide
  · obtain ⟨token, htoken, -, haccepted⟩ :=
      (cursor_integrity hkey hissued halice 5).2 aliceIssue rfl rfl (by decide)
    exact ⟨token, htoken, haccepted⟩

/-- **The user id is not compared**: a cursor that was made for a user continues the read of an
actor of the same token identity that is another user. -/
theorem user_not_compared :
    ∃ token, encodeNextCursor .reference signingEnv
      (aliceIssue.request.scope .reference) 1 2 = .ok token ∧
      Unforged .reference (List.replicate 32 7)
        (fun message => ∃ issue, issue = aliceIssue ∧ message = issue.payloadB64 .reference) token ∧
      resolveCursorState .reference signingEnv
        ((casesScan (.managedRequest "t" "local" "main" "user:alice" 0 [])).scope .reference)
        (some token) 5 =
          .ok ⟨1, 2⟩ ∧
      ∀ issue, issue = aliceIssue →
      issue.request.actor ≠ .managedRequest "t" "local" "main" "user:alice" 0 [] := by
  have hscope : aliceIssue.request.scope .reference =
      (casesScan (.managedRequest "t" "local" "main" "user:alice" 0 [])).scope .reference := rfl
  have hkey : signingEnv.signingKey = .ok (some (List.replicate 32 7)) := rfl
  obtain ⟨token, htoken, haccepted⟩ :=
    @resolve_encodeNextCursor .reference signingEnv signingEnv _ hkey hkey (by decide)
    (aliceIssue.request.scope .reference) 1 2 5
  refine ⟨token, htoken, fun pre message tag hsplit _ => ⟨aliceIssue, rfl, ?_⟩,
    hscope ▸ haccepted, ?_⟩
  · rw [encodeNextCursor_of_key hkey] at htoken
    rw [← Except.ok.inj htoken, split_encodeSignedCursor] at hsplit
    simp only [List.cons.injEq] at hsplit
    exact hsplit.2.1.symm
  · rintro issue rfl
    decide

end TraceDB
