import TraceDB.Remote.Store

/-!
# The writer lease of a branch

A writer acquires the lease of a branch for a time, refreshes it and releases it.  Each operation
asks the store for the ETag of the lease, then for the lease, and then puts or deletes it on the
condition of the ETag; the clock is read in between, and other clients act at any point.

* `LeaseCall` : an operation between two requests, with what it has read.
* `LeaseStep` : one request of one client, a look at the clock, or the clock going on.
* `LeaseInv` : what the clients may conclude from their reads, and that a lease that is live is the
  one that is stored.
* `lease_mutual_exclusion` : two holders never have a live lease at the same time, and an operation
  with another holder or token than the stored one fails.
* `fencing_tokens_increase` : the tokens of acquisitions grow as long as no lease is created where
  one was released; `released_token_again` is a run in which the first token comes twice.

Times and tokens are words of 64 bits, and their sums wrap as in a release build.
-/

namespace TraceDB

/-- `LeaseRecord`. -/
structure LeaseRecord where
  databaseId : String
  branchId : String
  holderId : String
  fencingToken : UInt64
  expiresAtUnix : UInt64
  deriving DecidableEq

/-- `AcquireLeaseRequest`. -/
structure AcquireLeaseRequest where
  databaseId : String
  branchId : String
  holderId : String
  ttlMs : UInt64
  deriving DecidableEq

/-- `lease_key`. -/
def leaseKey (databaseId branchId : String) : ObjectKey :=
  ⟨databaseId, branchId, .lease, "writer.json"⟩

/-- `ttl_seconds`. -/
def ttlSeconds (ttlMs : UInt64) : UInt64 :=
  UInt64.ofNat (min (ttlMs.toNat + 999) (2 ^ 64 - 1) / 1000)

/-- The operations on a lease. -/
inductive LeaseRequest where
  | acquire (request : AcquireLeaseRequest)
  | refresh (lease : LeaseRecord) (ttlMs : UInt64)
  | release (lease : LeaseRecord)
  deriving DecidableEq

/-- The database and branch of an operation. -/
def LeaseRequest.branch : LeaseRequest → String × String
  | .acquire request => (request.databaseId, request.branchId)
  | .refresh lease _ | .release lease => (lease.databaseId, lease.branchId)

/-- The lease that an operation goes on with. -/
def LeaseRequest.presented : LeaseRequest → Option LeaseRecord
  | .acquire _ => none
  | .refresh lease _ | .release lease => some lease

/-- The result of an operation: `acquire_lease` and `refresh_lease` return the lease. -/
abbrev LeaseResult := Except StorageError (Option LeaseRecord)

/-- An operation, by what it does next. -/
inductive LeaseCall where
  | idle
  /-- Before `s3_head_object`. -/
  | started (request : LeaseRequest)
  /-- `acquire_lease` before `unix_now`. -/
  | acquireHeaded (request : AcquireLeaseRequest) (head : Option String)
  /-- `acquire_lease` before `load_lease`. -/
  | acquireTimed (request : AcquireLeaseRequest) (etag : String) (now : UInt64)
  /-- `refresh_lease` before `load_lease`. -/
  | refreshHeaded (lease : LeaseRecord) (ttlMs : UInt64) (etag : String)
  /-- `refresh_lease` before `unix_now`. -/
  | refreshChecked (lease : LeaseRecord) (ttlMs : UInt64) (etag : String)
  /-- `release_lease` before `load_lease`. -/
  | releaseHeaded (lease : LeaseRecord) (etag : String)
  /-- Before `put_lease`. -/
  | putting (request : LeaseRequest) (lease : LeaseRecord) (condition : PutCondition)
  /-- Before `s3_delete_object`. -/
  | deleting (lease : LeaseRecord) (etag : String)
  | returned (request : LeaseRequest) (result : LeaseResult)

namespace LeaseCall

/-- The operation has returned, or there is none. -/
def resting : LeaseCall → Bool
  | .idle | .returned _ _ => true
  | _ => false

/-- What an operation has returned. -/
def outcome : LeaseCall → Option (LeaseRequest × LeaseResult)
  | .returned request result => some (request, result)
  | _ => none

/-- The operation that a request belongs to, while one is under way. -/
def request? : LeaseCall → Option LeaseRequest
  | .idle | .returned _ _ => none
  | .started request | .putting request _ _ => some request
  | .acquireHeaded request _ | .acquireTimed request _ _ => some (.acquire request)
  | .refreshHeaded lease ttlMs _ | .refreshChecked lease ttlMs _ => some (.refresh lease ttlMs)
  | .releaseHeaded lease _ | .deleting lease _ => some (.release lease)

end LeaseCall

section

variable (F : RemoteFormat LeaseRecord) (path : String)

/-- An operation after the head. -/
def leaseAfterHead (head : Option String) : LeaseRequest → LeaseCall
  | .acquire request => .acquireHeaded request head
  | .refresh lease ttlMs =>
    match head with
    | none => .returned (.refresh lease ttlMs) (.error (.objectNotFound path))
    | some etag => .refreshHeaded lease ttlMs etag
  | .release lease =>
    match head with
    | none => .returned (.release lease) (.error (.objectNotFound path))
    | some etag => .releaseHeaded lease etag

/-- The lease that `acquire_lease` writes. -/
def acquiredLease (request : AcquireLeaseRequest) (fencingToken now : UInt64) : LeaseRecord :=
  ⟨request.databaseId, request.branchId, request.holderId, fencingToken,
    now + ttlSeconds request.ttlMs⟩

/-- `acquire_lease` after it has read the clock. -/
def acquireAfterClock (request : AcquireLeaseRequest) (head : Option String) (now : UInt64) :
    LeaseCall :=
  match head with
  | none => .putting (.acquire request) (acquiredLease request 1 now) .ifAbsent
  | some etag => .acquireTimed request etag now

/-- `refresh_lease` after it has read the clock. -/
def refreshAfterClock (lease : LeaseRecord) (ttlMs : UInt64) (etag : String) (now : UInt64) :
    LeaseCall :=
  .putting (.refresh lease ttlMs) { lease with expiresAtUnix := now + ttlSeconds ttlMs }
    (.ifMatchEtag etag)

/-- `load_lease`, on what the get returned. -/
def loadLease : Option S3Object → Except StorageError LeaseRecord
  | none => .error (.objectNotFound path)
  | some record => (F.fromSlice record.bytes).mapError .provider

/-- `acquire_lease` after it has loaded the lease. -/
def acquireAfterLoad (request : AcquireLeaseRequest) (etag : String) (now : UInt64) :
    Except StorageError LeaseRecord → LeaseCall
  | .error e => .returned (.acquire request) (.error e)
  | .ok current =>
    if now < current.expiresAtUnix ∧ current.holderId ≠ request.holderId then
      .returned (.acquire request) (.error (.leaseHeld current.holderId))
    else .putting (.acquire request) (acquiredLease request (current.fencingToken + 1) now)
      (.ifMatchEtag etag)

/-- `refresh_lease` after it has loaded the lease. -/
def refreshAfterLoad (lease : LeaseRecord) (ttlMs : UInt64) (etag : String) :
    Except StorageError LeaseRecord → LeaseCall
  | .error e => .returned (.refresh lease ttlMs) (.error e)
  | .ok current =>
    if current.holderId ≠ lease.holderId ∨ current.fencingToken ≠ lease.fencingToken then
      .returned (.refresh lease ttlMs) (.error (.leaseHeld current.holderId))
    else .refreshChecked lease ttlMs etag

/-- `release_lease` after it has loaded the lease. -/
def releaseAfterLoad (lease : LeaseRecord) (etag : String) :
    Except StorageError LeaseRecord → LeaseCall
  | .error e => .returned (.release lease) (.error e)
  | .ok current =>
    if current.holderId ≠ lease.holderId ∨ current.fencingToken ≠ lease.fencingToken then
      .returned (.release lease) (.error (.leaseHeld current.holderId))
    else .deleting lease etag

/-- The object that `put_lease` puts. -/
def leaseObject (lease : LeaseRecord) : S3Object :=
  F.object lease [("branch_id", lease.branchId), ("database_id", lease.databaseId),
    ("expires_at_unix", toString lease.expiresAtUnix.toNat),
    ("fencing_token", toString lease.fencingToken.toNat), ("holder_id", lease.holderId)]

end

/-! ### Runs -/

/-- The lease object of a branch, the clock, and the clients. -/
structure LeaseWorld (ι : Type) where
  cell : S3Cell
  clock : UInt64
  calls : ι → LeaseCall

/-- What an operation returned, if it did so in the step. -/
abbrev LeaseLabel := Option (LeaseRequest × LeaseResult)

section

variable {ι : Type} [DecidableEq ι] (F : RemoteFormat LeaseRecord) (objectPrefix : String)
  (databaseId branchId : String)

/-- A client goes on. -/
def LeaseWorld.setCall (w : LeaseWorld ι) (i : ι) (call : LeaseCall) : LeaseWorld ι :=
  { w with calls := Function.update w.calls i call }

@[simp] theorem LeaseWorld.cell_setCall (w : LeaseWorld ι) (i : ι) (call : LeaseCall) :
    (w.setCall i call).cell = w.cell := rfl

@[simp] theorem LeaseWorld.clock_setCall (w : LeaseWorld ι) (i : ι) (call : LeaseCall) :
    (w.setCall i call).clock = w.clock := rfl

@[simp] theorem LeaseWorld.calls_setCall_self (w : LeaseWorld ι) (i : ι) (call : LeaseCall) :
    (w.setCall i call).calls i = call := Function.update_self ..

theorem LeaseWorld.calls_setCall_of_ne (w : LeaseWorld ι) {i j : ι} (h : j ≠ i)
    (call : LeaseCall) : (w.setCall i call).calls j = w.calls j := Function.update_of_ne h ..

/-- The path of the lease. -/
def leasePath : String := objectPath objectPrefix (leaseKey databaseId branchId)

/-- What the operation of a client does with the lease it has loaded. -/
def LeaseCall.afterLoad (loaded : Except StorageError LeaseRecord) : LeaseCall → Option LeaseCall
  | .acquireTimed request etag now => some (acquireAfterLoad request etag now loaded)
  | .refreshHeaded lease ttlMs etag => some (refreshAfterLoad lease ttlMs etag loaded)
  | .releaseHeaded lease etag => some (releaseAfterLoad lease etag loaded)
  | _ => none

/-- What the operation of a client does with the time. -/
def LeaseCall.afterClock (now : UInt64) : LeaseCall → Option LeaseCall
  | .acquireHeaded request head => some (acquireAfterClock request head now)
  | .refreshChecked lease ttlMs etag => some (refreshAfterClock lease ttlMs etag now)
  | _ => none

/-- One step on the lease of the branch. -/
inductive LeaseStep (w : LeaseWorld ι) : LeaseLabel → LeaseWorld ι → Prop
  | tick {now : UInt64} : w.clock ≤ now → LeaseStep w none { w with clock := now }
  | invoke {i : ι} {request : LeaseRequest} : (w.calls i).resting = true →
      request.branch = (databaseId, branchId) → LeaseStep w none (w.setCall i (.started request))
  | head {i : ι} {request : LeaseRequest} : w.calls i = .started request →
      LeaseStep w
        (leaseAfterHead (leasePath objectPrefix databaseId branchId)
          w.cell.version? request).outcome
        (w.setCall i
          (leaseAfterHead (leasePath objectPrefix databaseId branchId) w.cell.version? request))
  | clock {i : ι} {next : LeaseCall} : (w.calls i).afterClock w.clock = some next →
      LeaseStep w none (w.setCall i next)
  | load {i : ι} {next : LeaseCall} :
      (w.calls i).afterLoad
        (loadLease F (leasePath objectPrefix databaseId branchId) w.cell.value?) = some next →
      LeaseStep w next.outcome (w.setCall i next)
  | put {i : ι} {request : LeaseRequest} {lease : LeaseRecord} {condition : PutCondition}
      {etag : String} : w.calls i = .putting request lease condition → condition.Holds w.cell →
      etag ∉ w.cell.used →
      LeaseStep w (some (request, .ok (some lease)))
        ({ w with cell := w.cell.put etag (leaseObject F lease) }.setCall i
          (.returned request (.ok (some lease))))
  | delete {i : ι} {lease : LeaseRecord} {etag : String} : w.calls i = .deleting lease etag →
      w.cell.version? = some etag →
      LeaseStep w (some (.release lease, .ok none))
        ({ w with cell := w.cell.delete }.setCall i (.returned (.release lease) (.ok none)))
  /-- A request fails: its condition is refused, or the store does not carry it out. -/
  | failed {i : ι} {request : LeaseRequest} {e : StorageError} :
      (w.calls i).request? = some request →
      LeaseStep w (some (request, .error e)) (w.setCall i (.returned request (.error e)))

/-- The lease of a holder after a step. -/
def leaseAfterLabel (holder : String) (current : Option LeaseRecord) :
    LeaseLabel → Option LeaseRecord
  | some (.release lease, .ok _) => if lease.holderId = holder then none else current
  | some (_, .ok (some lease)) => if lease.holderId = holder then some lease else current
  | _ => current

/-- The lease of a holder: the record that its last successful write stored, unless it was
released. -/
def leaseOf (trace : List LeaseLabel) (holder : String) : Option LeaseRecord :=
  trace.foldl (leaseAfterLabel holder) none

/-- The tokens of the acquisitions, in the order of their writes. -/
def acquiredTokens (trace : List LeaseLabel) : List UInt64 :=
  trace.filterMap fun
    | some (.acquire _, .ok (some lease)) => some lease.fencingToken
    | _ => none

theorem leaseOf_snoc (trace : List LeaseLabel) (label : LeaseLabel) (holder : String) :
    leaseOf (trace ++ [label]) holder = leaseAfterLabel holder (leaseOf trace holder) label := by
  rw [leaseOf, List.foldl_append]
  rfl

/-! ### What a client knows -/

/-- Two records are for the same holder under the same token. -/
def LeaseRecord.SamePair (lease current : LeaseRecord) : Prop :=
  lease.holderId = current.holderId ∧ lease.fencingToken = current.fencingToken

/-- An object holds a lease with a property. -/
def Holding (P : LeaseRecord → Prop) (record : S3Object) : Prop :=
  ∃ current, F.fromSlice record.bytes = .ok current ∧ P current

/-- The lease that an operation may replace by its own. -/
def LeaseRequest.Replaces (clock : UInt64) (lease current : LeaseRecord) : LeaseRequest → Prop
  | .acquire _ => (current.expiresAtUnix ≤ clock ∨ current.holderId = lease.holderId) ∧
      lease.fencingToken = current.fencingToken + 1
  | .refresh presented _ => presented.SamePair current ∧ presented.SamePair lease
  | .release _ => False

/-- What an operation may conclude from the requests it has made. -/
def LeaseCall.Knows (cell : S3Cell) (clock : UInt64) : LeaseCall → Prop
  | .acquireHeaded _ head => ∀ etag, head = some etag → etag ∈ cell.used
  | .acquireTimed _ etag now => etag ∈ cell.used ∧ now ≤ clock
  | .refreshHeaded _ _ etag | .releaseHeaded _ etag => etag ∈ cell.used
  | .refreshChecked lease _ etag | .deleting lease etag => cell.Pinned etag
      (Holding F lease.SamePair)
  | .putting request lease (.ifMatchEtag etag) =>
      cell.Pinned etag (Holding F fun current => request.Replaces clock lease current)
  | .putting (.acquire _) lease .ifAbsent => lease.fencingToken = 1
  | .putting _ _ _ => False
  | _ => True

variable {F}

/-- The clock going on does not change it. -/
theorem LeaseCall.Knows.tick {cell : S3Cell} {clock clock' : UInt64} {call : LeaseCall}
    (h : call.Knows F cell clock) (hle : clock ≤ clock') : call.Knows F cell clock' := by
  cases call with
  | acquireTimed request etag now => exact ⟨h.1, UInt64.le_trans h.2 hle⟩
  | putting request lease condition =>
    cases condition with
    | ifMatchEtag etag =>
      refine Versioned.Pinned.imp h fun record => ?_
      rintro ⟨current, hparse, hreplaces⟩
      refine ⟨current, hparse, ?_⟩
      cases request with
      | acquire request =>
        exact ⟨hreplaces.1.imp_left fun hold => UInt64.le_trans hold hle, hreplaces.2⟩
      | refresh | release => exact hreplaces
    | ifAbsent => cases request <;> exact h
    | none => exact h
  | idle | started | acquireHeaded | refreshHeaded | refreshChecked | releaseHeaded | deleting
  | returned => exact h

/-- Neither do the puts of others. -/
theorem LeaseCall.Knows.put {cell : S3Cell} {clock : UInt64} {call : LeaseCall}
    (h : call.Knows F cell clock) {etag : String} (hnew : etag ∉ cell.used) (a : S3Object) :
    call.Knows F (cell.put etag a) clock := by
  cases call with
  | acquireHeaded request head => exact fun e he => Versioned.mem_used_put (h e he)
  | acquireTimed request e now => exact ⟨Versioned.mem_used_put h.1, h.2⟩
  | refreshHeaded lease ttlMs e => exact Versioned.mem_used_put h
  | releaseHeaded lease e => exact Versioned.mem_used_put h
  | refreshChecked lease ttlMs e => exact Versioned.Pinned.put h hnew a
  | deleting lease e => exact Versioned.Pinned.put h hnew a
  | putting request lease condition =>
    cases condition with
    | ifMatchEtag e => exact Versioned.Pinned.put h hnew a
    | ifAbsent => cases request <;> exact h
    | none => exact h
  | idle | started | returned => trivial

/-- Nor their deletions. -/
theorem LeaseCall.Knows.delete {cell : S3Cell} {clock : UInt64} {call : LeaseCall}
    (h : call.Knows F cell clock) : call.Knows F cell.delete clock := by
  cases call with
  | refreshChecked lease ttlMs e => exact Versioned.Pinned.delete h
  | deleting lease e => exact Versioned.Pinned.delete h
  | putting request lease condition =>
    cases condition with
    | ifMatchEtag e => exact Versioned.Pinned.delete h
    | ifAbsent => cases request <;> exact h
    | none => exact h
  | idle | started | acquireHeaded | acquireTimed | refreshHeaded | releaseHeaded | returned =>
    exact h

theorem LeaseCall.knows_of_resting {cell : S3Cell} {clock : UInt64} {call : LeaseCall}
    (h : call.resting = true) : call.Knows F cell clock := by
  cases call with
  | idle | started | returned => trivial
  | acquireHeaded | acquireTimed | refreshHeaded | refreshChecked | releaseHeaded | putting
  | deleting => cases h

theorem knows_leaseAfterHead (path : String) (cell : S3Cell) (clock : UInt64)
    (request : LeaseRequest) :
    (leaseAfterHead path cell.version? request).Knows F cell clock := by
  cases request with
  | acquire request => exact fun etag hetag => Versioned.mem_used_of_version? hetag
  | refresh lease ttlMs =>
    simp only [leaseAfterHead]
    cases hversion : cell.version? with
    | none => trivial
    | some etag => exact Versioned.mem_used_of_version? hversion
  | release lease =>
    simp only [leaseAfterHead]
    cases hversion : cell.version? with
    | none => trivial
    | some etag => exact Versioned.mem_used_of_version? hversion

theorem knows_afterClock {cell : S3Cell} {clock : UInt64} {call next : LeaseCall}
    (h : call.Knows F cell clock) (hnext : call.afterClock clock = some next) :
    next.Knows F cell clock := by
  cases call with
  | acquireHeaded request head =>
    obtain rfl := Option.some.inj hnext
    cases head with
    | none => exact rfl
    | some etag => exact ⟨h etag rfl, UInt64.le_refl clock⟩
  | refreshChecked lease ttlMs etag =>
    obtain rfl := Option.some.inj hnext
    refine Versioned.Pinned.imp h fun record => ?_
    rintro ⟨current, hparse, hsame⟩
    exact ⟨current, hparse, hsame, rfl, rfl⟩
  | idle | started | acquireTimed | refreshHeaded | releaseHeaded | putting | deleting | returned =>
    cases hnext

/-- What `load_lease` returned was in the store. -/
theorem loadLease_eq_ok {path : String} {value : Option S3Object} {current : LeaseRecord}
    (h : loadLease F path value = .ok current) :
    ∃ record, value = some record ∧ F.fromSlice record.bytes = .ok current := by
  cases value with
  | none => cases h
  | some record =>
    refine ⟨record, rfl, ?_⟩
    simp only [loadLease] at h
    cases hparse : F.fromSlice record.bytes with
    | error e =>
      rw [hparse] at h
      cases h
    | ok lease =>
      rw [hparse] at h
      exact congrArg _ (Except.ok.inj h)

theorem knows_afterLoad {path : String} {cell : S3Cell} {clock : UInt64} {call next : LeaseCall}
    (h : call.Knows F cell clock)
    (hnext : call.afterLoad (loadLease F path cell.value?) = some next) :
    next.Knows F cell clock := by
  cases call with
  | acquireTimed request etag now =>
    obtain rfl := Option.some.inj hnext
    cases hload : loadLease F path cell.value? with
    | error e => trivial
    | ok current =>
      simp only [acquireAfterLoad]
      split_ifs with hheld
      · trivial
      · obtain ⟨record, hvalue, hparse⟩ := loadLease_eq_ok hload
        refine Versioned.pinned_of_value? h.1 hvalue ⟨current, hparse, ?_, rfl⟩
        rcases not_and_or.1 hheld with hexpired | hholder
        · exact .inl (UInt64.le_trans (UInt64.not_lt.1 hexpired) h.2)
        · exact .inr (not_not.1 hholder)
  | refreshHeaded lease ttlMs etag =>
    obtain rfl := Option.some.inj hnext
    cases hload : loadLease F path cell.value? with
    | error e => trivial
    | ok current =>
      simp only [refreshAfterLoad]
      split_ifs with hother
      · trivial
      · obtain ⟨record, hvalue, hparse⟩ := loadLease_eq_ok hload
        obtain ⟨hholder, htoken⟩ := not_or.1 hother
        exact Versioned.pinned_of_value? h hvalue
          ⟨current, hparse, (not_not.1 hholder).symm, (not_not.1 htoken).symm⟩
  | releaseHeaded lease etag =>
    obtain rfl := Option.some.inj hnext
    cases hload : loadLease F path cell.value? with
    | error e => trivial
    | ok current =>
      simp only [releaseAfterLoad]
      split_ifs with hother
      · trivial
      · obtain ⟨record, hvalue, hparse⟩ := loadLease_eq_ok hload
        obtain ⟨hholder, htoken⟩ := not_or.1 hother
        exact Versioned.pinned_of_value? h hvalue
          ⟨current, hparse, (not_not.1 hholder).symm, (not_not.1 htoken).symm⟩
  | idle | started | acquireHeaded | refreshChecked | putting | deleting | returned => cases hnext

/-! ### Which lease a write meets -/

theorem stored_of_holding {cell : S3Cell} {etag : String} {record : S3Object}
    {P : LeaseRecord → Prop} (hobject : cell.object = some (etag, record))
    (h : Holding F P record) :
    ∃ current, F.stored cell = some current ∧ P current := by
  obtain ⟨current, hparse, hP⟩ := h
  refine ⟨current, ?_, hP⟩
  rw [RemoteFormat.stored, Versioned.value?, hobject]
  simp only [Option.map_some, Option.bind_some, hparse]
  rfl

theorem stored_put_leaseObject (cell : S3Cell) (etag : String) (lease : LeaseRecord) :
    F.stored (cell.put etag (leaseObject F lease)) = some lease := by
  simp only [RemoteFormat.stored, Versioned.value?, Versioned.object_put, Option.map_some,
    Option.bind_some, leaseObject, RemoteFormat.object, F.fromSlice_toVec]
  rfl

/-- The lease before a successful put. -/
theorem LeaseCall.Knows.replaces {cell : S3Cell} {clock : UInt64} {request : LeaseRequest}
    {lease : LeaseRecord} {condition : PutCondition}
    (h : (LeaseCall.putting request lease condition).Knows F cell clock)
    (hholds : condition.Holds cell) :
    (∃ r, request = .acquire r ∧ lease.fencingToken = 1 ∧ cell.object = none) ∨
      ∃ current, F.stored cell = some current ∧ request.Replaces clock lease current := by
  cases condition with
  | ifMatchEtag etag =>
    obtain ⟨record, hobject, hholding⟩ := Versioned.Pinned.of_version? h hholds
    exact .inr (stored_of_holding hobject hholding)
  | ifAbsent =>
    cases request with
    | acquire r => exact .inl ⟨r, rfl, h, hholds⟩
    | refresh | release => exact h.elim
  | none => cases request <;> exact h.elim

/-- The lease before a successful deletion. -/
theorem LeaseCall.Knows.deletes {cell : S3Cell} {clock : UInt64} {lease : LeaseRecord}
    {etag : String} (h : (LeaseCall.deleting lease etag).Knows F cell clock)
    (hversion : cell.version? = some etag) :
    ∃ current, F.stored cell = some current ∧ lease.SamePair current := by
  obtain ⟨record, hobject, hholding⟩ := Versioned.Pinned.of_version? h hversion
  exact stored_of_holding hobject hholding

/-! ### The invariant -/

/-- What the clients know, and that a lease that is live is the one that is stored. -/
structure LeaseInv (F : RemoteFormat LeaseRecord) (trace : List LeaseLabel) (w : LeaseWorld ι) :
    Prop where
  knows : ∀ i, (w.calls i).Knows F w.cell w.clock
  holder : ∀ holder lease, leaseOf trace holder = some lease → lease.holderId = holder
  live : ∀ holder lease, leaseOf trace holder = some lease → w.clock < lease.expiresAtUnix →
    F.stored w.cell = some lease

variable {objectPrefix databaseId branchId} {trace : List LeaseLabel} {w w' : LeaseWorld ι}
  {label : LeaseLabel}

/-- A label that says nothing about leases. -/
def LeaseLabel.Quiet (label : LeaseLabel) : Prop :=
  ∀ holder current, leaseAfterLabel holder current label = current

theorem leaseOf_quiet (h : LeaseLabel.Quiet label) (holder : String) :
    leaseOf (trace ++ [label]) holder = leaseOf trace holder := by
  rw [leaseOf_snoc, h]

/-- A step that changes one call. -/
theorem LeaseInv.setCall (h : LeaseInv F trace w) (hquiet : LeaseLabel.Quiet label) (i : ι)
    {call : LeaseCall} (hcall : call.Knows F w.cell w.clock) :
    LeaseInv F (trace ++ [label]) (w.setCall i call) where
  knows j := by
    by_cases hj : j = i
    · subst hj
      rw [LeaseWorld.calls_setCall_self]
      exact hcall
    · rw [LeaseWorld.calls_setCall_of_ne w hj]
      exact h.knows j
  holder holder lease hlease := by
    rw [leaseOf_quiet hquiet] at hlease
    exact h.holder holder lease hlease
  live holder lease hlease hlive := by
    rw [leaseOf_quiet hquiet] at hlease
    exact h.live holder lease hlease hlive

theorem quiet_error (request : LeaseRequest) (e : StorageError) :
    LeaseLabel.Quiet (some (request, .error e)) := by
  intro holder current
  cases request <;> rfl

/-- A call that returns right after the head returns an error. -/
theorem error_of_outcome_leaseAfterHead {path : String} {head : Option String}
    {request request' : LeaseRequest} {result : LeaseResult}
    (houtcome : (leaseAfterHead path head request).outcome = some (request', result)) :
    ∃ e, result = .error e := by
  cases request with
  | acquire request => cases houtcome
  | refresh lease ttlMs =>
    cases head with
    | none => exact ⟨_, (Prod.mk.inj (Option.some.inj houtcome)).2.symm⟩
    | some etag => cases houtcome
  | release lease =>
    cases head with
    | none => exact ⟨_, (Prod.mk.inj (Option.some.inj houtcome)).2.symm⟩
    | some etag => cases houtcome

/-- A call that returns right after it has loaded the lease returns an error. -/
theorem error_of_outcome_afterLoad {loaded : Except StorageError LeaseRecord}
    {call next : LeaseCall} (h : call.afterLoad loaded = some next) {request : LeaseRequest}
    {result : LeaseResult} (houtcome : next.outcome = some (request, result)) :
      ∃ e, result = .error e := by
  cases call with
  | acquireTimed r etag now =>
    obtain rfl := Option.some.inj h
    cases loaded with
    | error e => exact ⟨e, (Prod.mk.inj (Option.some.inj houtcome)).2.symm⟩
    | ok current =>
      simp only [acquireAfterLoad] at houtcome
      split_ifs at houtcome
      · exact ⟨_, (Prod.mk.inj (Option.some.inj houtcome)).2.symm⟩
      · cases houtcome
  | refreshHeaded lease ttlMs etag =>
    obtain rfl := Option.some.inj h
    cases loaded with
    | error e => exact ⟨e, (Prod.mk.inj (Option.some.inj houtcome)).2.symm⟩
    | ok current =>
      simp only [refreshAfterLoad] at houtcome
      split_ifs at houtcome
      · exact ⟨_, (Prod.mk.inj (Option.some.inj houtcome)).2.symm⟩
      · cases houtcome
  | releaseHeaded lease etag =>
    obtain rfl := Option.some.inj h
    cases loaded with
    | error e => exact ⟨e, (Prod.mk.inj (Option.some.inj houtcome)).2.symm⟩
    | ok current =>
      simp only [releaseAfterLoad] at houtcome
      split_ifs at houtcome
      · exact ⟨_, (Prod.mk.inj (Option.some.inj houtcome)).2.symm⟩
      · cases houtcome
  | idle | started | acquireHeaded | refreshChecked | putting | deleting | returned => cases h

/-- Only an operation that returns a lease, or releases one, says something about leases. -/
theorem quiet_of_error {outcome : LeaseLabel}
    (h : ∀ request result, outcome = some (request, result) → ∃ e, result = .error e) :
    LeaseLabel.Quiet outcome := by
  cases outcome with
  | none => exact fun _ _ => rfl
  | some p =>
    obtain ⟨e, he⟩ := h p.1 p.2 rfl
    have hp : p = (p.1, .error e) := Prod.ext rfl he
    rw [hp]
    exact quiet_error _ _

/-- A write of the lease of one holder: the leases of the others are over. -/
theorem LeaseInv.written (h : LeaseInv F trace w) {i : ι} {request : LeaseRequest}
    {lease : LeaseRecord} {etag : String} (hnew : etag ∉ w.cell.used)
    (hlabel : ∀ holder current, leaseAfterLabel holder current (some (request, .ok (some lease))) =
      if lease.holderId = holder then some lease else current)
    (hover : ∀ current, F.stored w.cell = some current → current.holderId ≠ lease.holderId →
      current.expiresAtUnix ≤ w.clock) :
    LeaseInv F (trace ++ [some (request, .ok (some lease))])
      ({ w with cell := w.cell.put etag (leaseObject F lease) }.setCall i
        (.returned request (.ok (some lease)))) := by
  refine ⟨fun j => ?_, fun holder other hother => ?_, fun holder other hother hlive => ?_⟩
  · by_cases hj : j = i
    · subst hj
      rw [LeaseWorld.calls_setCall_self]
      trivial
    · rw [LeaseWorld.calls_setCall_of_ne _ hj]
      exact (h.knows j).put hnew _
  · rw [leaseOf_snoc, hlabel] at hother
    split_ifs at hother with hholder
    · obtain rfl := Option.some.inj hother
      exact hholder
    · exact h.holder holder other hother
  · rw [leaseOf_snoc, hlabel] at hother
    split_ifs at hother with hholder
    · obtain rfl := Option.some.inj hother
      exact stored_put_leaseObject _ _ _
    · -- The lease of another holder that is live was stored, and is over.
      have hstored := h.live holder other hother hlive
      have hne : other.holderId ≠ lease.holderId := by
        rw [h.holder holder other hother]
        exact fun heq => hholder heq.symm
      exact absurd hlive (UInt64.not_lt.2 (hover other hstored hne))

/-- A release: the leases of the other holders are over. -/
theorem LeaseInv.released (h : LeaseInv F trace w) {i : ι} {lease current : LeaseRecord}
    (hstored : F.stored w.cell = some current) (hsame : lease.SamePair current) :
    LeaseInv F (trace ++ [some (.release lease, .ok none)])
      ({ w with cell := w.cell.delete }.setCall i (.returned (.release lease) (.ok none))) := by
  have hlabel : ∀ holder, leaseOf (trace ++ [some (.release lease, .ok none)]) holder =
      if lease.holderId = holder then none else leaseOf trace holder := leaseOf_snoc _ _
  refine ⟨fun j => ?_, fun holder other hother => ?_, fun holder other hother hlive => ?_⟩
  · by_cases hj : j = i
    · subst hj
      rw [LeaseWorld.calls_setCall_self]
      trivial
    · rw [LeaseWorld.calls_setCall_of_ne _ hj]
      exact (h.knows j).delete
  · rw [hlabel] at hother
    split_ifs at hother with hholder
    exact h.holder holder other hother
  · rw [hlabel] at hother
    split_ifs at hother with hholder
    have hother' := h.live holder other hother hlive
    rw [hstored] at hother'
    obtain rfl := Option.some.inj hother'
    exact absurd (hsame.1.trans (h.holder holder current hother)) hholder

/-- **Every step keeps it.** -/
theorem LeaseInv.step (h : LeaseInv F trace w)
    (hstep : LeaseStep F objectPrefix databaseId branchId w label w') :
    LeaseInv F (trace ++ [label]) w' := by
  cases hstep with
  | @tick now hle =>
    have hquiet : LeaseLabel.Quiet none := fun _ _ => rfl
    refine ⟨fun i => (h.knows i).tick hle, fun holder lease hlease => ?_,
      fun holder lease hlease hlive => ?_⟩
    · rw [leaseOf_quiet hquiet] at hlease
      exact h.holder holder lease hlease
    · rw [leaseOf_quiet hquiet] at hlease
      exact h.live holder lease hlease (UInt64.lt_of_le_of_lt hle hlive)
  | invoke => exact h.setCall (fun _ _ => rfl) _ trivial
  | head =>
    exact h.setCall (quiet_of_error fun _ _ => error_of_outcome_leaseAfterHead) _
      (knows_leaseAfterHead _ _ _ _)
  | @clock i next hnext => exact h.setCall (fun _ _ => rfl) i (knows_afterClock (h.knows i) hnext)
  | @load i next hnext =>
    exact h.setCall (quiet_of_error fun _ _ => error_of_outcome_afterLoad hnext) i
      (knows_afterLoad (h.knows i) hnext)
  | @put i request lease condition etag hcall hholds hnew =>
    have hknows := h.knows i
    rw [hcall] at hknows
    rcases hknows.replaces hholds with ⟨r, rfl, -, habsent⟩ | ⟨current, hstored, hreplaces⟩
    · refine h.written hnew (fun _ _ => rfl) fun current hstored => ?_
      rw [RemoteFormat.stored, Versioned.value?, habsent] at hstored
      cases hstored
    · cases request with
      | acquire r =>
        refine h.written hnew (fun _ _ => rfl) fun other hother hne => ?_
        obtain rfl := Option.some.inj (hstored.symm.trans hother)
        exact hreplaces.1.resolve_right hne
      | refresh presented ttlMs =>
        refine h.written hnew (fun _ _ => rfl) fun other hother hne => ?_
        obtain rfl := Option.some.inj (hstored.symm.trans hother)
        exact absurd (hreplaces.1.1.symm.trans hreplaces.2.1) hne
      | release presented => exact hreplaces.elim
  | @delete i lease etag hcall hversion =>
    have hknows := h.knows i
    rw [hcall] at hknows
    obtain ⟨current, hstored, hsame⟩ := hknows.deletes hversion
    exact h.released hstored hsame
  | failed => exact h.setCall (quiet_error _ _) _ trivial

omit [DecidableEq ι] in
theorem leaseInv_start {start : LeaseWorld ι} (hstart : ∀ i, (start.calls i).resting = true) :
    LeaseInv F [] start :=
  ⟨fun i => LeaseCall.knows_of_resting (hstart i), (fun _ _ hnone => by cases hnone),
    fun _ _ hnone => by cases hnone⟩

theorem leaseInv_of_runs {start : LeaseWorld ι} {allowed : LeaseWorld ι → LeaseLabel → Prop}
    (hstart : ∀ i, (start.calls i).resting = true)
    (h : Runs (LeaseStep F objectPrefix databaseId branchId) allowed start trace w) :
    LeaseInv F trace w :=
  h.invariant (leaseInv_start hstart) fun _ _ _ _ _ hstep hinv => hinv.step hstep

/-- An operation that presents a lease, and returns another result than an error, met that lease. -/
theorem LeaseInv.presented (h : LeaseInv F trace w) {request : LeaseRequest} {result : LeaseResult}
    (hstep : LeaseStep F objectPrefix databaseId branchId w (some (request, result)) w')
    {lease : LeaseRecord} (hlease : request.presented = some lease) :
    ((∃ e, result = .error e) ∧ w'.cell = w.cell) ∨
      ∃ current, F.stored w.cell = some current ∧ lease.SamePair current := by
  generalize hlabel : (some (request, result) : LeaseLabel) = label at hstep
  cases hstep with
  | tick | invoke | clock => cases hlabel
  | head => exact .inl ⟨error_of_outcome_leaseAfterHead hlabel.symm, rfl⟩
  | @load i next hnext => exact .inl ⟨error_of_outcome_afterLoad hnext hlabel.symm, rfl⟩
  | @put i r written condition etag hcall hholds hnew =>
    right
    obtain ⟨rfl, -⟩ := Prod.mk.inj (Option.some.inj hlabel)
    have hknows := h.knows i
    rw [hcall] at hknows
    rcases hknows.replaces hholds with ⟨_, rfl, -, -⟩ | ⟨current, hstored, hreplaces⟩
    · cases hlease
    · cases request with
      | acquire r => cases hlease
      | refresh presented ttlMs =>
        obtain rfl := Option.some.inj hlease
        exact ⟨current, hstored, hreplaces.1⟩
      | release presented => exact hreplaces.elim
  | @delete i l etag hcall hversion =>
    right
    obtain ⟨rfl, -⟩ := Prod.mk.inj (Option.some.inj hlabel)
    obtain rfl := Option.some.inj hlease
    have hknows := h.knows i
    rw [hcall] at hknows
    exact hknows.deletes hversion
  | failed =>
    left
    obtain ⟨-, rfl⟩ := Prod.mk.inj (Option.some.inj hlabel)
    exact ⟨⟨_, rfl⟩, rfl⟩

/-- **Mutual exclusion.**  Any number of clients run any operations on the lease of a branch, in any
interleaving of their requests, while the clock goes on.  Two holders never have a live lease at the
same time; and an operation that presents another holder or token than the stored one returns an
error and leaves the lease. -/
theorem lease_mutual_exclusion {start w : LeaseWorld ι} {trace : List LeaseLabel}
    (hstart : ∀ i, (start.calls i).resting = true)
    (h : Runs (LeaseStep F objectPrefix databaseId branchId) (fun _ _ => True) start trace w) :
    (∀ holder holder' lease lease', holder ≠ holder' → leaseOf trace holder = some lease →
      leaseOf trace holder' = some lease' →
        ¬ (w.clock < lease.expiresAtUnix ∧ w.clock < lease'.expiresAtUnix)) ∧
      ∀ request result w' lease,
        LeaseStep F objectPrefix databaseId branchId w (some (request, result)) w' →
        request.presented = some lease →
        (∀ current, F.stored w.cell = some current → ¬ lease.SamePair current) →
          (∃ e, result = .error e) ∧ w'.cell = w.cell := by
  have hinv := leaseInv_of_runs hstart h
  refine ⟨fun holder holder' lease lease' hne hlease hlease' hlive => ?_,
    fun request result w' lease hstep hpresented hother => ?_⟩
  · -- Both would be the stored one.
    have hstored := hinv.live holder lease hlease hlive.1
    rw [hinv.live holder' lease' hlease' hlive.2] at hstored
    obtain rfl := Option.some.inj hstored
    exact hne ((hinv.holder _ _ hlease).symm.trans (hinv.holder _ _ hlease'))
  · rcases hinv.presented hstep hpresented with herror | ⟨current, hstored, hsame⟩
    · exact herror
    · exact absurd hsame (hother current hstored)

/-! ### Fencing tokens -/

/-- An acquisition that is written where no lease was released, and whose token does not wrap. -/
def TokenSafe (F : RemoteFormat LeaseRecord) (w : LeaseWorld ι) : LeaseLabel → Prop
  | some (.acquire _, .ok (some _)) => (w.cell.object = none → w.cell.used = ∅) ∧
      ∀ current, F.stored w.cell = some current → current.fencingToken.toNat ≠ 2 ^ 64 - 1
  | _ => True

theorem acquiredTokens_snoc (trace : List LeaseLabel) (label : LeaseLabel) :
    acquiredTokens (trace ++ [label]) = acquiredTokens trace ++ acquiredTokens [label] :=
  List.filterMap_append

/-- The tokens so far grow up to the one that is stored. -/
structure TokenInv (F : RemoteFormat LeaseRecord) (trace : List LeaseLabel) (w : LeaseWorld ι) :
    Prop where
  fresh : w.cell.used = ∅ → acquiredTokens trace = []
  bounded : ∀ token ∈ acquiredTokens trace, ∀ current, F.stored w.cell = some current →
    token ≤ current.fencingToken
  increasing : (acquiredTokens trace).Pairwise (· < ·)

omit [DecidableEq ι] in
/-- A step that acquires nothing and leaves the cell. -/
theorem TokenInv.quiet (h : TokenInv F trace w) (hcell : w'.cell = w.cell)
    (hnone : acquiredTokens [label] = []) : TokenInv F (trace ++ [label]) w' := by
  have htokens : acquiredTokens (trace ++ [label]) = acquiredTokens trace := by
    rw [acquiredTokens_snoc, hnone, List.append_nil]
  refine ⟨fun hused => ?_, fun token htoken current hstored => ?_, ?_⟩
  · rw [htokens]
    exact h.fresh (hcell ▸ hused)
  · rw [htokens] at htoken
    exact h.bounded token htoken current (hcell ▸ hstored)
  · rw [htokens]
    exact h.increasing

theorem acquiredTokens_of_error {outcome : LeaseLabel}
    (h : ∀ request result, outcome = some (request, result) → ∃ e, result = .error e) :
    acquiredTokens [outcome] = [] := by
  cases outcome with
  | none => rfl
  | some p =>
    obtain ⟨e, he⟩ := h p.1 p.2 rfl
    have hp : p = (p.1, .error e) := Prod.ext rfl he
    rw [hp]
    cases p.1 <;> rfl

omit [DecidableEq ι] in
/-- An acquisition with a token above the earlier ones. -/
theorem TokenInv.acquired (h : TokenInv F trace w) {request : AcquireLeaseRequest}
    {lease : LeaseRecord} (hused : w'.cell.used ≠ ∅) (hstored : F.stored w'.cell = some lease)
    (hbelow : ∀ token ∈ acquiredTokens trace, token < lease.fencingToken) :
    TokenInv F (trace ++ [some (.acquire request, .ok (some lease))]) w' := by
  have htokens : acquiredTokens (trace ++ [some (.acquire request, .ok (some lease))]) =
      acquiredTokens trace ++ [lease.fencingToken] := acquiredTokens_snoc _ _
  refine ⟨fun hempty => absurd hempty hused, fun token htoken current hcurrent => ?_, ?_⟩
  · obtain rfl := Option.some.inj (hstored.symm.trans hcurrent)
    rw [htokens, List.mem_append, List.mem_singleton] at htoken
    rcases htoken with hearlier | rfl
    · exact UInt64.le_of_lt (hbelow token hearlier)
    · exact UInt64.le_refl _
  · rw [htokens, List.pairwise_append]
    refine ⟨h.increasing, List.pairwise_singleton _ _, fun token htoken other hother => ?_⟩
    rw [List.mem_singleton.1 hother]
    exact hbelow token htoken

theorem lt_add_one_of_ne_max {token : UInt64} (h : token.toNat ≠ 2 ^ 64 - 1) :
    token < token + 1 := by
  have hlt := token.toNat_lt
  have hone : (1 : UInt64).toNat = 1 := rfl
  rw [UInt64.lt_iff_toNat_lt, UInt64.toNat_add, hone]
  omega

/-- Every step that is safe keeps it. -/
theorem TokenInv.step (h : TokenInv F trace w) (hknows : ∀ i, (w.calls i).Knows F w.cell w.clock)
    (hsafe : TokenSafe F w label)
    (hstep : LeaseStep F objectPrefix databaseId branchId w label w') :
    TokenInv F (trace ++ [label]) w' := by
  cases hstep with
  | tick | invoke | clock => exact h.quiet rfl rfl
  | head => exact h.quiet rfl (acquiredTokens_of_error fun _ _ => error_of_outcome_leaseAfterHead)
  | @load i next hnext =>
    exact h.quiet rfl (acquiredTokens_of_error fun _ _ => error_of_outcome_afterLoad hnext)
  | @failed i request e =>
    refine h.quiet rfl (acquiredTokens_of_error fun _ _ heq => ⟨e, ?_⟩)
    exact (Prod.mk.inj (Option.some.inj heq)).2.symm
  | @delete i lease etag hcall hversion =>
    have htokens : acquiredTokens (trace ++ [some (.release lease, .ok none)]) =
        acquiredTokens trace := (acquiredTokens_snoc _ _).trans (List.append_nil _)
    refine ⟨fun hused => htokens ▸ h.fresh hused, fun token _ current hstored => ?_,
      htokens ▸ h.increasing⟩
    cases hstored
  | @put i request lease condition etag hcall hholds hnew =>
    have hcallKnows := hknows i
    rw [hcall] at hcallKnows
    have hused : (w.cell.put etag (leaseObject F lease)).used ≠ ∅ :=
      (Set.insert_nonempty _ _).ne_empty
    rcases hcallKnows.replaces hholds with ⟨r, rfl, -, habsent⟩ | ⟨current, hstored, hreplaces⟩
    · refine h.acquired hused (stored_put_leaseObject _ _ _) fun token htoken => ?_
      rw [h.fresh (hsafe.1 habsent)] at htoken
      cases htoken
    · cases request with
      | acquire r =>
        refine h.acquired hused (stored_put_leaseObject _ _ _) fun token htoken => ?_
        rw [hreplaces.2]
        exact UInt64.lt_of_le_of_lt (h.bounded token htoken current hstored)
          (lt_add_one_of_ne_max (hsafe.2 current hstored))
      | refresh presented ttlMs =>
        have htokens : acquiredTokens
            (trace ++ [some (.refresh presented ttlMs, .ok (some lease))]) =
            acquiredTokens trace := (acquiredTokens_snoc _ _).trans (List.append_nil _)
        refine ⟨fun hempty => absurd hempty hused, fun token htoken other hother => ?_,
          htokens ▸ h.increasing⟩
        -- A refresh stores the token that was there.
        obtain rfl := Option.some.inj ((stored_put_leaseObject _ _ _).symm.trans hother)
        rw [htokens] at htoken
        rw [← hreplaces.2.2, hreplaces.1.2]
        exact h.bounded token htoken current hstored
      | release presented => exact hreplaces.elim

/-- **Fencing tokens grow** as long as no lease is acquired where an earlier one was released and no
token is the last of its 64 bits: then the tokens of the acquisitions, in the order of their writes,
increase, and no two are equal. -/
theorem fencing_tokens_increase {start w : LeaseWorld ι} {trace : List LeaseLabel}
    (hstart : ∀ i, (start.calls i).resting = true)
    (h : Runs (LeaseStep F objectPrefix databaseId branchId) (TokenSafe F) start trace w) :
    (acquiredTokens trace).Pairwise (· < ·) ∧ (acquiredTokens trace).Nodup := by
  have hfirst : TokenInv F [] start := ⟨fun _ => rfl, (fun _ hmem => by cases hmem), .nil⟩
  have hinv : LeaseInv F trace w ∧ TokenInv F trace w := by
    refine @Runs.invariant _ _ _ _ _ (fun trace w => LeaseInv F trace w ∧ TokenInv F trace w)
      ⟨leaseInv_start hstart, hfirst⟩ ?_ _ _ h
    rintro trace s label s' hsafe hstep ⟨hlease, htoken⟩
    exact ⟨hlease.step hstep, htoken.step hlease.knows hsafe hstep⟩
  exact ⟨hinv.2.increasing, hinv.2.increasing.imp UInt64.ne_of_lt⟩

end

/-! ### Operations that run alone -/

section

variable {ι : Type} [DecidableEq ι] {F : RemoteFormat LeaseRecord} {objectPrefix : String}
  {databaseId branchId : String} {allowed : LeaseWorld ι → LeaseLabel → Prop}
  {start w : LeaseWorld ι} {trace : List LeaseLabel} {i : ι}

theorem loadLease_leaseObject (path : String) (lease : LeaseRecord) :
    loadLease F path (some (leaseObject F lease)) = .ok lease := by
  simp only [loadLease, leaseObject, RemoteFormat.object, F.fromSlice_toVec]
  rfl

@[simp] theorem LeaseWorld.setCall_setCall (w : LeaseWorld ι) (i : ι) (call call' : LeaseCall) :
    (w.setCall i call).setCall i call' = w.setCall i call' := by
  simp only [LeaseWorld.setCall, Function.update_idem]

/-- The world after an operation of one client that replaced the object. -/
def LeaseWorld.done (w : LeaseWorld ι) (i : ι) (cell : S3Cell) (request : LeaseRequest)
    (result : LeaseResult) : LeaseWorld ι :=
  { w with cell := cell }.setCall i (.returned request result)

theorem LeaseWorld.done_setCall (w : LeaseWorld ι) (i : ι) (call : LeaseCall) (cell : S3Cell)
    (request : LeaseRequest) (result : LeaseResult) :
    (w.setCall i call).done i cell request result = w.done i cell request result :=
  setCall_setCall { w with cell := cell } i call _

/-- An acquisition up to its look at the clock. -/
theorem runs_acquireAfterClock (hquiet : ∀ w, allowed w none)
    (h : Runs (LeaseStep F objectPrefix databaseId branchId) allowed start trace w)
    (hrest : (w.calls i).resting = true) {request : AcquireLeaseRequest}
    (hbranch : (LeaseRequest.acquire request).branch = (databaseId, branchId)) :
    Runs (LeaseStep F objectPrefix databaseId branchId) allowed start
      (trace ++ [none] ++ [none] ++ [none])
      (w.setCall i (acquireAfterClock request w.cell.version? w.clock)) := by
  have hstarted := h.step (hquiet _) (.invoke hrest hbranch)
  have hheaded := hstarted.step (hquiet _) (.head (LeaseWorld.calls_setCall_self _ _ _))
  rw [LeaseWorld.setCall_setCall] at hheaded
  have hclock := hheaded.step (hquiet _)
    (.clock (congrArg (LeaseCall.afterClock w.clock) (LeaseWorld.calls_setCall_self _ _ _)))
  rwa [LeaseWorld.setCall_setCall] at hclock

/-- An acquisition that runs alone where there is no lease. -/
theorem runs_acquire_absent (hquiet : ∀ w, allowed w none)
    (h : Runs (LeaseStep F objectPrefix databaseId branchId) allowed start trace w)
    (hrest : (w.calls i).resting = true) {request : AcquireLeaseRequest}
    (hbranch : (LeaseRequest.acquire request).branch = (databaseId, branchId))
    (habsent : w.cell.object = none) {etag : String} (hnew : etag ∉ w.cell.used)
    (hallowed : ∀ w', w'.cell = w.cell →
      allowed w' (some (.acquire request, .ok (some (acquiredLease request 1 w.clock))))) :
    Runs (LeaseStep F objectPrefix databaseId branchId) allowed start
      (trace ++ [none] ++ [none] ++ [none] ++
        [some (.acquire request, .ok (some (acquiredLease request 1 w.clock)))])
      (w.done i (w.cell.put etag (leaseObject F (acquiredLease request 1 w.clock)))
        (.acquire request) (.ok (some (acquiredLease request 1 w.clock)))) := by
  have hclock := runs_acquireAfterClock hquiet h hrest hbranch
  rw [Versioned.version?, habsent] at hclock
  have hput := hclock.step (hallowed _ rfl)
    (.put (LeaseWorld.calls_setCall_self _ _ _) habsent hnew)
  rwa [← LeaseWorld.done_setCall]

/-- An acquisition that runs alone where the lease is over. -/
theorem runs_acquire_expired (hquiet : ∀ w, allowed w none)
    (h : Runs (LeaseStep F objectPrefix databaseId branchId) allowed start trace w)
    (hrest : (w.calls i).resting = true) {request : AcquireLeaseRequest}
    (hbranch : (LeaseRequest.acquire request).branch = (databaseId, branchId))
    {current : LeaseRecord} {etag etag' : String}
    (hobject : w.cell.object = some (etag, leaseObject F current))
    (hover : current.expiresAtUnix ≤ w.clock) (hnew : etag' ∉ w.cell.used)
    (hallowed : ∀ w', w'.cell = w.cell →
      allowed w' (some (.acquire request,
        .ok (some (acquiredLease request (current.fencingToken + 1) w.clock))))) :
    Runs (LeaseStep F objectPrefix databaseId branchId) allowed start
      (trace ++ [none] ++ [none] ++ [none] ++ [none] ++
        [some (.acquire request,
          .ok (some (acquiredLease request (current.fencingToken + 1) w.clock)))])
      (w.done i
        (w.cell.put etag' (leaseObject F
          (acquiredLease request (current.fencingToken + 1) w.clock)))
        (.acquire request)
        (.ok (some (acquiredLease request (current.fencingToken + 1) w.clock)))) := by
  have hclock := runs_acquireAfterClock hquiet h hrest hbranch
  rw [Versioned.version?, hobject] at hclock
  have hload : (LeaseCall.acquireTimed request etag w.clock).afterLoad
      (loadLease F (leasePath objectPrefix databaseId branchId) w.cell.value?) =
      some (.putting (.acquire request)
        (acquiredLease request (current.fencingToken + 1) w.clock) (.ifMatchEtag etag)) := by
    rw [Versioned.value?, hobject, Option.map_some, loadLease_leaseObject]
    exact congrArg some (if_neg fun hheld => UInt64.not_lt.2 hover hheld.1)
  have hloaded := hclock.step (hquiet _)
    (.load ((congrArg (LeaseCall.afterLoad _) (LeaseWorld.calls_setCall_self _ _ _)).trans hload))
  rw [LeaseWorld.setCall_setCall] at hloaded
  have hput := hloaded.step (hallowed _ rfl)
    (.put (LeaseWorld.calls_setCall_self _ _ _) (congrArg (Option.map Prod.fst) hobject) hnew)
  rwa [← LeaseWorld.done_setCall]

/-- A release that runs alone. -/
theorem runs_release (hquiet : ∀ w, allowed w none)
    (h : Runs (LeaseStep F objectPrefix databaseId branchId) allowed start trace w)
    (hrest : (w.calls i).resting = true) {lease : LeaseRecord} {etag : String}
    (hbranch : (LeaseRequest.release lease).branch = (databaseId, branchId))
    (hobject : w.cell.object = some (etag, leaseObject F lease))
    (hallowed : ∀ w', w'.cell = w.cell → allowed w' (some (.release lease, .ok none))) :
    Runs (LeaseStep F objectPrefix databaseId branchId) allowed start
      (trace ++ [none] ++ [none] ++ [none] ++ [some (.release lease, .ok none)])
      (w.done i w.cell.delete (.release lease) (.ok none)) := by
  have hversion : w.cell.version? = some etag := congrArg (Option.map Prod.fst) hobject
  have hload : (LeaseCall.releaseHeaded lease etag).afterLoad
      (loadLease F (leasePath objectPrefix databaseId branchId) w.cell.value?) =
      some (.deleting lease etag) := by
    rw [Versioned.value?, hobject, Option.map_some, loadLease_leaseObject]
    exact congrArg some (if_neg fun hother => hother.elim (· rfl) (· rfl))
  have hstarted := h.step (hquiet _) (.invoke hrest hbranch)
  have hhead : LeaseStep F objectPrefix databaseId branchId
      (w.setCall i (.started (.release lease))) none (w.setCall i (.releaseHeaded lease etag)) := by
    have hstep := @LeaseStep.head _ _ F objectPrefix databaseId branchId _ i _
      (LeaseWorld.calls_setCall_self w i (.started (.release lease)))
    rwa [LeaseWorld.setCall_setCall, LeaseWorld.cell_setCall, hversion] at hstep
  have hheaded := hstarted.step (hquiet _) hhead
  have hloaded := hheaded.step (hquiet _)
    (.load ((congrArg (LeaseCall.afterLoad _) (LeaseWorld.calls_setCall_self _ _ _)).trans hload))
  rw [LeaseWorld.setCall_setCall] at hloaded
  have hdelete := hloaded.step (hallowed _ rfl)
    (.delete (LeaseWorld.calls_setCall_self _ _ _) hversion)
  rwa [← LeaseWorld.done_setCall]

end

/-! ### Two writers -/

/-- `LeaseRecord`. -/
def StreamCodec.leaseRecord : StreamCodec LeaseRecord :=
  (prod string (prod string (prod string (prod uint64 uint64)))).xmap
    (fun l => (l.databaseId, l.branchId, l.holderId, l.fencingToken, l.expiresAtUnix))
    (fun p => some ⟨p.1, p.2.1, p.2.2.1, p.2.2.2.1, p.2.2.2.2⟩) (fun _ => rfl)

/-- A request for the branch `main`, for one second. -/
def sampleAcquire (holder : String) : AcquireLeaseRequest := ⟨"db", "main", holder, 1000⟩

/-- The lease that such a request gets. -/
def sampleLease (holder : String) (fencingToken now : UInt64) : LeaseRecord :=
  acquiredLease (sampleAcquire holder) fencingToken now

/-- No one has ever held the lease. -/
def freshLeaseWorld : LeaseWorld Bool := ⟨.empty, 0, fun _ => .idle⟩

/-- The acquisitions of a lease, as labels. -/
def acquiredLabel (holder : String) (fencingToken now : UInt64) : LeaseLabel :=
  some (.acquire (sampleAcquire holder), .ok (some (sampleLease holder fencingToken now)))

/-- The world after the first acquisition. -/
def firstLeaseWorld (F : RemoteFormat LeaseRecord) : LeaseWorld Bool :=
  freshLeaseWorld.done false (Versioned.empty.put "e1" (leaseObject F (sampleLease "b" 1 0)))
    (.acquire (sampleAcquire "b")) (.ok (some (sampleLease "b" 1 0)))

theorem runs_firstLeaseWorld (F : RemoteFormat LeaseRecord) :
    Runs (LeaseStep F "" "db" "main") (TokenSafe F) freshLeaseWorld
      [none, none, none, acquiredLabel "b" 1 0] (firstLeaseWorld F) := by
  refine @runs_acquire_absent Bool _ F "" "db" "main" (TokenSafe F) _ _ _ false
    (fun _ => trivial) .start rfl (sampleAcquire "b") rfl rfl "e1" (Set.notMem_empty _) ?_
  intro w' hcell
  refine ⟨fun _ => hcell ▸ rfl, fun current hstored => ?_⟩
  rw [hcell] at hstored
  cases hstored

/-- The lease of the first writer has run out. -/
def expiredLeaseWorld (F : RemoteFormat LeaseRecord) : LeaseWorld Bool :=
  { firstLeaseWorld F with clock := 5 }

/-- Another writer has taken over. -/
def secondLeaseWorld (F : RemoteFormat LeaseRecord) : LeaseWorld Bool :=
  (expiredLeaseWorld F).done true
    ((firstLeaseWorld F).cell.put "e2" (leaseObject F (sampleLease "a" 2 5)))
    (.acquire (sampleAcquire "a")) (.ok (some (sampleLease "a" 2 5)))

theorem runs_secondLeaseWorld (F : RemoteFormat LeaseRecord) :
    Runs (LeaseStep F "" "db" "main") (TokenSafe F) freshLeaseWorld
      [none, none, none, acquiredLabel "b" 1 0, none, none, none, none, none, acquiredLabel "a" 2 5]
      (secondLeaseWorld F) := by
  have hsafe : TokenSafe F (firstLeaseWorld F) none := trivial
  have htick := (runs_firstLeaseWorld F).step hsafe
    (@LeaseStep.tick _ _ _ _ _ _ _ 5 (UInt64.le_iff_toNat_le.2 (Nat.zero_le _)))
  have hover : (sampleLease "b" 1 0).expiresAtUnix ≤ 5 := by decide +kernel
  refine @runs_acquire_expired Bool _ F "" "db" "main" (TokenSafe F) _ (expiredLeaseWorld F) _ true
    (fun _ => trivial) htick rfl (sampleAcquire "a") rfl
      (sampleLease "b" 1 0) "e1" "e2" rfl hover ?_ ?_
  · simp [expiredLeaseWorld, firstLeaseWorld, LeaseWorld.done, Versioned.put, Versioned.empty]
  · intro w' hcell
    refine ⟨fun hnone => ?_, fun current hstored => ?_⟩
    · rw [hcell] at hnone
      cases hnone
    · rw [hcell] at hstored
      obtain rfl := Option.some.inj ((stored_put_leaseObject _ _ _).symm.trans hstored)
      decide

theorem fencing_tokens_increase_takeover :
    ∃ w, Runs (LeaseStep (.ofCodec .leaseRecord) "" "db" "main")
        (TokenSafe (.ofCodec .leaseRecord)) freshLeaseWorld
        [none, none, none, acquiredLabel "b" 1 0, none, none, none, none, none,
          acquiredLabel "a" 2 5]
        w ∧
      [(1 : UInt64), 2].Pairwise (· < ·) :=
  ⟨_, runs_secondLeaseWorld _,
    (fencing_tokens_increase (fun _ => rfl) (runs_secondLeaseWorld (.ofCodec .leaseRecord))).1⟩

/-- A refresh of the first writer, after the second one has taken over, before it loads the
lease. -/
def lateRefreshWorld (F : RemoteFormat LeaseRecord) : LeaseWorld Bool :=
  (secondLeaseWorld F).setCall false (.refreshHeaded (sampleLease "b" 1 0) 1000 "e2")

theorem runs_lateRefreshWorld (F : RemoteFormat LeaseRecord) :
    Runs (LeaseStep F "" "db" "main") (fun _ _ => True) freshLeaseWorld
      [none, none, none, acquiredLabel "b" 1 0, none, none, none, none, none, acquiredLabel "a" 2 5,
        none, none]
      (lateRefreshWorld F) := by
  have hruns := (runs_secondLeaseWorld F).mono fun _ _ _ => trivial
  have hstarted := hruns.step trivial
    (@LeaseStep.invoke _ _ _ _ _ _ _ false (.refresh (sampleLease "b" 1 0) 1000) rfl rfl)
  have hheaded := hstarted.step trivial (.head (LeaseWorld.calls_setCall_self _ _ _))
  rw [LeaseWorld.setCall_setCall] at hheaded
  exact hheaded

theorem step_lateRefreshWorld (F : RemoteFormat LeaseRecord) :
    LeaseStep F "" "db" "main" (lateRefreshWorld F)
      (some (.refresh (sampleLease "b" 1 0) 1000, .error (.leaseHeld "a")))
      ((lateRefreshWorld F).setCall false
        (.returned (.refresh (sampleLease "b" 1 0) 1000) (.error (.leaseHeld "a")))) := by
  refine @LeaseStep.load _ _ _ _ _ _ _ false (.returned (.refresh (sampleLease "b" 1 0) 1000)
    (.error (.leaseHeld "a"))) ?_
  have hload : loadLease F (leasePath "" "db" "main") (lateRefreshWorld F).cell.value? =
      .ok (sampleLease "a" 2 5) := loadLease_leaseObject _ _
  rw [hload]
  rfl

theorem lease_mutual_exclusion_takeover :
    ¬ ((5 : UInt64) < (sampleLease "b" 1 0).expiresAtUnix ∧
        (5 : UInt64) < (sampleLease "a" 2 5).expiresAtUnix) ∧
      ((∃ e, (.error (.leaseHeld "a") : LeaseResult) = .error e) ∧
        ((lateRefreshWorld (.ofCodec .leaseRecord)).setCall false
          (.returned (.refresh (sampleLease "b" 1 0) 1000) (.error (.leaseHeld "a")))).cell =
            (lateRefreshWorld (.ofCodec .leaseRecord)).cell) := by
  obtain ⟨hlive, hpresented⟩ :=
    lease_mutual_exclusion (fun _ => rfl) (runs_lateRefreshWorld (.ofCodec .leaseRecord))
  refine ⟨hlive "b" "a" _ _ (by decide) rfl rfl,
    hpresented _ _ _ _ (step_lateRefreshWorld _) rfl fun current hstored hsame => ?_⟩
  obtain rfl := Option.some.inj ((stored_put_leaseObject _ _ _).symm.trans hstored)
  exact absurd hsame.1 (by decide)

/-- The second acquisition after a release gets the first token again. -/
theorem released_token_again :
    ∃ (w : LeaseWorld Bool) (trace : List LeaseLabel),
      Runs (LeaseStep (.ofCodec .leaseRecord) "" "db" "main")
      (fun _ _ => True) freshLeaseWorld trace
        w ∧
      acquiredTokens trace = [1, 1] ∧ ¬ (acquiredTokens trace).Pairwise (· < ·) := by
  have hfirst := (runs_firstLeaseWorld (.ofCodec .leaseRecord)).mono fun _ _ _ => trivial
  have hreleased := @runs_release Bool _ _ "" "db" "main" (fun _ _ => True) _ _ _ false
    (fun _ => trivial) hfirst rfl (sampleLease "b" 1 0) "e1" rfl rfl fun _ _ => trivial
  have hagain := @runs_acquire_absent Bool _ _ "" "db" "main" (fun _ _ => True) _ _ _ true
    (fun _ => trivial) hreleased rfl (sampleAcquire "a") rfl rfl "e2"
    (by simp [firstLeaseWorld, LeaseWorld.done, LeaseWorld.setCall, Versioned.put, Versioned.delete,
      Versioned.empty])
    fun _ _ => trivial
  exact ⟨_, _, hagain, rfl, by decide⟩

end TraceDB
