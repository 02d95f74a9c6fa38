import TraceDB.Core.Value

/-!
# Actors and policies

`tracedb-policy`: who makes a request, and which records a policy lets them see.
-/

namespace TraceDB

/-- `ActorContext`.  The request id and the audit flag are carried along by the source and decide
nothing. -/
structure ActorContext where
  tenantId : String
  userId : String
  databaseId : String
  branchId : String
  tokenIdentity : String
  policyEpoch : ℕ
  scopes : List String
  deriving DecidableEq

namespace ActorContext

/-- `ActorContext::tenant_user`. -/
def tenantUser (tenantId userId : String) : ActorContext where
  tenantId := tenantId
  userId := userId
  databaseId := "local"
  branchId := "main"
  tokenIdentity := "user:" ++ userId
  policyEpoch := 0
  scopes := []

/-- `ActorContext::managed_request`. -/
def managedRequest (tenantId databaseId branchId tokenIdentity : String) (policyEpoch : ℕ)
    (scopes : List String) : ActorContext where
  tenantId := tenantId
  userId := tokenIdentity
  databaseId := databaseId
  branchId := branchId
  tokenIdentity := tokenIdentity
  policyEpoch := policyEpoch
  scopes := scopes

end ActorContext

/-- `VisibilityMode`. -/
inductive VisibilityMode where
  | tenant
  | isPublic
  | acl
  | hidden
  deriving DecidableEq

/-- `AclEntry`. -/
structure AclEntry where
  userId : String
  allow : Bool
  deriving DecidableEq

/-- `Policy`, as far as the visibility oracle reads it. -/
structure Policy where
  tenantId : String
  visibility : VisibilityMode
  acl : List AclEntry
  suppressFromAi : Bool
  deriving DecidableEq

/-- `Policy::tenant`. -/
def Policy.tenant (tenantId : String) : Policy where
  tenantId := tenantId
  visibility := .tenant
  acl := []
  suppressFromAi := false

/-- The reasons that `VisibilityOracle::visible` collects against showing a record. -/
def Policy.reasons (policy : Policy) (actor : ActorContext) : List String :=
  (if policy.tenantId ≠ actor.tenantId then ["tenant_mismatch"] else []) ++
  (match policy.visibility with
    | .isPublic | .tenant => []
    | .hidden => ["hidden"]
    | .acl =>
      if policy.acl.any fun entry => entry.allow && entry.userId == actor.userId then []
      else ["acl_denied"]) ++
  (if policy.suppressFromAi then ["suppress_from_ai"] else [])

/-- `VisibilityOracle::visible(..).allowed`. -/
def Policy.visible (policy : Policy) (actor : ActorContext) : Bool :=
  (policy.reasons actor).isEmpty

end TraceDB
