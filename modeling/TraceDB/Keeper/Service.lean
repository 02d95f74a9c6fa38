import Mathlib.Data.List.Find
import Mathlib.Data.List.Induction
import Mathlib.Data.List.Nodup
import TraceDB.Core.Value
import TraceDB.Data.Codec
import TraceDB.Data.Except

/-!
# The keeper

`tracedb-keeper`: a service that gives the commits of many branches their epochs and keeps them in
one log.  A request carries a key; a second request with the key is answered from a map, and not
logged. After each new commit the whole service is written to its file, through a temporary file
that is renamed.

* `Keeper.Inv` : the map is the log by its keys, the counters are the lengths of the branches, and
  the file is the service.
* `Keeper.Inv.step` : every step keeps it in which the file of a new commit is written.
* `keeper_log_iff` : the log has one entry per branch and key, with the first payload, just when the
  keys under which the map files the requests tell them apart.

Epochs are natural numbers: the log would have to hold `2 ^ 64` commits of one branch for its
counter to overflow.
-/

namespace TraceDB

/-- `CommitRequest`. -/
structure CommitRequest where
  branchId : String
  idempotencyKey : String
  payload : String
  deriving DecidableEq

/-- `CommitAck`. -/
structure CommitAck where
  branchId : String
  epoch : ℕ
  idempotencyKey : String
  deriving DecidableEq

/-- `DurableCommit`. -/
structure DurableCommit where
  branchId : String
  epoch : ℕ
  idempotencyKey : String
  payload : String
  deriving DecidableEq

/-- The path of a service, with what `non_empty_parent` finds above it. -/
structure KeeperPath where
  path : String
  nonEmptyParent : Option String
  deriving DecidableEq

/-- `BranchWalService`. -/
structure BranchWalService where
  nextEpoch : Std.ExtTreeMap String ℕ compare
  idempotent : Std.ExtTreeMap String CommitAck compare
  commitLog : List DurableCommit
  durablePath : Option KeeperPath
  deriving DecidableEq

/-- `serde_json` on a service.  The path is not written. -/
structure KeeperFormat where
  toVecPretty : BranchWalService → Bytes
  fromSlice : Bytes → Except String BranchWalService
  fromSlice_toVecPretty : ∀ service,
    fromSlice (toVecPretty service) = .ok { service with durablePath := none }

/-- The file of a service and the temporary file beside it. -/
structure KeeperFiles where
  file : Option Bytes
  tmp : Option Bytes
  deriving DecidableEq

/-- `DurableWriteOps`, by the errors that its operations return.  A write that fails can leave
something in the temporary file. -/
structure DurableWriteOps where
  createDirAll : Option String
  writeFile : Option (String × Option Bytes)
  syncFile : Option String
  rename : Option String
  syncDir : Option String
  deriving DecidableEq

/-- Operations that do not fail. -/
def DurableWriteOps.succeed : DurableWriteOps := ⟨none, none, none, none, none⟩

/-- `idempotency_key`. -/
def idempotencyKey (branchId idempotencyKey : String) : String :=
  branchId ++ "\x1f" ++ idempotencyKey

/-- An operation that takes place only if there is a parent. -/
def onParent (path : KeeperPath) (error : Option String) : Option String :=
  if path.nonEmptyParent.isSome then error else none

/-- `persist_body_with_ops`. -/
def persistBodyWithOps (path : KeeperPath) (body : Bytes) (ops : DurableWriteOps)
    (files : KeeperFiles) : Except String Unit × KeeperFiles :=
  match onParent path ops.createDirAll with
  | some e => (.error e, files)
  | none =>
    match ops.writeFile with
    | some (e, written) => (.error e, { files with tmp := written.or files.tmp })
    | none =>
      match ops.syncFile with
      | some e => (.error e, { files with tmp := some body })
      | none =>
        match ops.rename with
        | some e => (.error e, { files with tmp := some body })
        | none =>
          match onParent path ops.syncDir with
          | some e => (.error e, ⟨some body, none⟩)
          | none => (.ok (), ⟨some body, none⟩)

namespace BranchWalService

variable (F : KeeperFormat)

/-- `BranchWalService::default`. -/
def default : BranchWalService := ⟨∅, ∅, [], none⟩

/-- `BranchWalService::open`. -/
def «open» (path : KeeperPath) (files : KeeperFiles) : Except String BranchWalService := do
  let service ← match files.file with
    | some body => F.fromSlice body
    | none => .ok default
  .ok { service with durablePath := some path }

/-- `persist`. -/
def persist (service : BranchWalService) (ops : DurableWriteOps) (files : KeeperFiles) :
    Except String Unit × KeeperFiles :=
  match service.durablePath with
  | none => (.ok (), files)
  | some path => persistBodyWithOps path (F.toVecPretty service) ops files

/-- The epoch that the next commit of a branch gets. -/
def epochFor (service : BranchWalService) (branchId : String) : ℕ :=
  (service.nextEpoch[branchId]?).getD 1

/-- The acknowledgement of a new request. -/
def ackFor (service : BranchWalService) (request : CommitRequest) : CommitAck :=
  ⟨request.branchId, service.epochFor request.branchId, request.idempotencyKey⟩

/-- The service with a new commit, before it is written. -/
def logged (service : BranchWalService) (request : CommitRequest) : BranchWalService :=
  let ack := service.ackFor request
  { service with
    nextEpoch := service.nextEpoch.insert request.branchId (ack.epoch + 1)
    commitLog := service.commitLog ++
      [⟨ack.branchId, ack.epoch, ack.idempotencyKey, request.payload⟩]
    idempotent := service.idempotent.insert
      (idempotencyKey request.branchId request.idempotencyKey) ack }

/-- `commit`. -/
def commit (service : BranchWalService) (request : CommitRequest) (ops : DurableWriteOps)
    (files : KeeperFiles) : Except String CommitAck × BranchWalService × KeeperFiles :=
  match service.idempotent[idempotencyKey request.branchId request.idempotencyKey]? with
  | some existing => (.ok existing, service, files)
  | none =>
    let next := service.logged request
    match next.persist F ops files with
    | (.error e, files) => (.error e, next, files)
    | (.ok (), files) => (.ok (service.ackFor request), next, files)

end BranchWalService

/-! ### Runs -/

/-- A service with its files. -/
structure Keeper where
  service : BranchWalService
  files : KeeperFiles
  deriving DecidableEq

/-- The steps of a run: a commit, with the way its file operations end, or a new service on the
files. -/
inductive KeeperStep where
  | commit (request : CommitRequest) (ops : DurableWriteOps)
  | reopen

/-- A request and what its commit returned. -/
abbrev KeeperReturn := CommitRequest × Except String CommitAck

namespace Keeper

variable (F : KeeperFormat) (path : KeeperPath)

/-- A service on a path where there is no file. -/
def start : Keeper := ⟨{ BranchWalService.default with durablePath := some path }, ⟨none, none⟩⟩

/-- One step.  A service that cannot be opened leaves the old one. -/
def step (keeper : Keeper) : KeeperStep → List KeeperReturn × Keeper
  | .commit request ops =>
    let (result, service, files) := keeper.service.commit F request ops keeper.files
    ([(request, result)], ⟨service, files⟩)
  | .reopen =>
    match BranchWalService.open F path keeper.files with
    | .error _ => ([], keeper)
    | .ok service => ([], ⟨service, keeper.files⟩)

/-- A run: what its commits returned, and the service at the end. -/
def run (keeper : Keeper) : List KeeperStep → List KeeperReturn × Keeper
  | [] => ([], keeper)
  | step :: steps =>
    let (returned, next) := keeper.step F path step
    let (later, last) := next.run steps
    (returned ++ later, last)

variable {F} {path}

theorem run_append (keeper : Keeper) (steps steps' : List KeeperStep) :
    keeper.run F path (steps ++ steps') =
      ((keeper.run F path steps).1 ++ ((keeper.run F path steps).2.run F path steps').1,
        ((keeper.run F path steps).2.run F path steps').2) := by
  induction steps generalizing keeper with
  | nil => rfl
  | cons step steps ih => simp only [List.cons_append, run, ih, List.append_assoc]

theorem run_snoc (keeper : Keeper) (steps : List KeeperStep) (step : KeeperStep) :
    keeper.run F path (steps ++ [step]) =
      ((keeper.run F path steps).1 ++ ((keeper.run F path steps).2.step F path step).1,
        ((keeper.run F path steps).2.step F path step).2) := by
  rw [run_append]
  simp only [run, List.append_nil]

end Keeper

/-! ### Writing the file -/

/-- The file operations of a path fail at some stage. -/
def DurableWriteOps.fails (ops : DurableWriteOps) (path : KeeperPath) : Bool :=
  (onParent path ops.createDirAll).isSome || ops.writeFile.isSome || ops.syncFile.isSome ||
    ops.rename.isSome || (onParent path ops.syncDir).isSome

theorem DurableWriteOps.fails_succeed (path : KeeperPath) :
    DurableWriteOps.succeed.fails path = false := by
  simp [fails, succeed, onParent]

/-- When no stage fails, the file is the body. -/
theorem persistBodyWithOps_ok {path : KeeperPath} {ops : DurableWriteOps}
    (h : ops.fails path = false) (body : Bytes) (files : KeeperFiles) :
    persistBodyWithOps path body ops files = (.ok (), ⟨some body, none⟩) := by
  simp only [DurableWriteOps.fails, Bool.or_eq_false_iff, Option.isSome_eq_false_iff,
    Option.isNone_iff_eq_none] at h
  obtain ⟨⟨⟨⟨hdir, hwrite⟩, hsync⟩, hrename⟩, hsyncDir⟩ := h
  simp only [persistBodyWithOps, hdir, hwrite, hsync, hrename, hsyncDir]

/-- Otherwise there is an error. -/
theorem persistBodyWithOps_error {path : KeeperPath} {ops : DurableWriteOps}
    (h : ops.fails path = true) (body : Bytes) (files : KeeperFiles) :
    ∃ e files', persistBodyWithOps path body ops files = (.error e, files') := by
  cases hdir : onParent path ops.createDirAll with
  | some e =>
    refine ⟨e, files, ?_⟩
    simp only [persistBodyWithOps, hdir]
  | none =>
    cases hwrite : ops.writeFile with
    | some failure =>
      refine ⟨failure.1, { files with tmp := failure.2.or files.tmp }, ?_⟩
      simp only [persistBodyWithOps, hdir, hwrite]
    | none =>
      cases hsync : ops.syncFile with
      | some e =>
        refine ⟨e, { files with tmp := some body }, ?_⟩
        simp only [persistBodyWithOps, hdir, hwrite, hsync]
      | none =>
        cases hrename : ops.rename with
        | some e =>
          refine ⟨e, { files with tmp := some body }, ?_⟩
          simp only [persistBodyWithOps, hdir, hwrite, hsync, hrename]
        | none =>
          cases hsyncDir : onParent path ops.syncDir with
          | some e =>
            refine ⟨e, ⟨some body, none⟩, ?_⟩
            simp only [persistBodyWithOps, hdir, hwrite, hsync, hrename, hsyncDir]
          | none => simp [DurableWriteOps.fails, hdir, hwrite, hsync, hrename, hsyncDir] at h

/-! ### The invariant -/

/-- The key under which a request is filed. -/
def CommitRequest.key (request : CommitRequest) : String :=
  TraceDB.idempotencyKey request.branchId request.idempotencyKey

/-- The key of an entry of the log. -/
def DurableCommit.key (entry : DurableCommit) : String :=
  TraceDB.idempotencyKey entry.branchId entry.idempotencyKey

/-- The acknowledgement of an entry of the log. -/
def DurableCommit.ack (entry : DurableCommit) : CommitAck :=
  ⟨entry.branchId, entry.epoch, entry.idempotencyKey⟩

/-- The entries of a branch. -/
def BranchWalService.branch (service : BranchWalService) (branchId : String) : List DurableCommit :=
  service.commitLog.filter fun entry => entry.branchId = branchId

namespace Keeper

variable (F : KeeperFormat) (path : KeeperPath)

/-- What the service, its files and the commits so far have to do with each other. -/
structure Inv (returned : List KeeperReturn) (keeper : Keeper) : Prop where
  durablePath : keeper.service.durablePath = some path
  /-- The file is the service. -/
  file : BranchWalService.open F path keeper.files = .ok keeper.service
  /-- Every request was answered from the map, or is in it now. -/
  answered : ∀ request result, (request, result) ∈ returned →
    ∃ ack, result = .ok ack ∧ keeper.service.idempotent[request.key]? = some ack
  /-- The map is the log by its keys. -/
  filed : ∀ (key : String) (ack : CommitAck), keeper.service.idempotent[key]? = some ack ↔
    ∃ entry ∈ keeper.service.commitLog, entry.key = key ∧ entry.ack = ack
  keys : (keeper.service.commitLog.map (·.key)).Nodup
  /-- An entry is the first request under its key. -/
  first : ∀ entry ∈ keeper.service.commitLog, ∃ request result,
    returned.find? (fun r => r.1.key = entry.key) = some (request, result) ∧
      request.branchId = entry.branchId ∧ request.idempotencyKey = entry.idempotencyKey ∧
      request.payload = entry.payload
  epochs : ∀ branchId, (keeper.service.branch branchId).map (·.epoch) =
    List.range' 1 (keeper.service.branch branchId).length
  nextEpoch : ∀ branchId, keeper.service.epochFor branchId =
    (keeper.service.branch branchId).length + 1

variable {F} {path}

theorem inv_start : Inv F path [] (start path) where
  durablePath := rfl
  file := rfl
  answered _ _ h := absurd h List.not_mem_nil
  filed key ack := by simp [start, BranchWalService.default]
  keys := List.nodup_nil
  first _ h := absurd h List.not_mem_nil
  epochs _ := rfl
  nextEpoch branchId := by simp [start, BranchWalService.default, BranchWalService.epochFor,
    BranchWalService.branch]

/-- The service that is read back from its own file. -/
theorem open_toVecPretty {service : BranchWalService} (h : service.durablePath = some path)
    (tmp : Option Bytes) :
    BranchWalService.open F path ⟨some (F.toVecPretty service), tmp⟩ = .ok service := by
  simp only [BranchWalService.open, F.fromSlice_toVecPretty, Except.ok_bind]
  rw [← h]

variable {returned : List KeeperReturn} {keeper : Keeper}

/-- A request under a key that is known changes nothing. -/
theorem Inv.known (h : Inv F path returned keeper) {request : CommitRequest} {ack : CommitAck}
    (hack : keeper.service.idempotent[request.key]? = some ack) :
    Inv F path (returned ++ [(request, .ok ack)]) keeper where
  durablePath := h.durablePath
  file := h.file
  answered r result hmem := by
    rcases List.mem_append.1 hmem with hold | hnew
    · exact h.answered r result hold
    · obtain ⟨rfl, rfl⟩ := Prod.mk.inj (List.mem_singleton.1 hnew)
      exact ⟨ack, rfl, hack⟩
  filed := h.filed
  keys := h.keys
  first entry hentry := by
    obtain ⟨r, result, hfind, hsame⟩ := h.first entry hentry
    refine ⟨r, result, ?_, hsame⟩
    rw [List.find?_append, hfind]
    rfl
  epochs := h.epochs
  nextEpoch := h.nextEpoch

/-- The entries of a branch after a new commit. -/
theorem branch_logged (service : BranchWalService) (request : CommitRequest) (branchId : String) :
    (service.logged request).branch branchId = service.branch branchId ++
      if request.branchId = branchId then
        [⟨request.branchId, service.epochFor request.branchId, request.idempotencyKey,
          request.payload⟩]
      else [] := by
  simp only [BranchWalService.branch, BranchWalService.logged, BranchWalService.ackFor,
    List.filter_append]
  split_ifs with hbranch
  · simp [hbranch]
  · simp [hbranch]

theorem epochFor_logged (service : BranchWalService) (request : CommitRequest) (branchId : String) :
    (service.logged request).epochFor branchId =
      if request.branchId = branchId then service.epochFor request.branchId + 1
      else service.epochFor branchId := by
  simp only [BranchWalService.epochFor, BranchWalService.logged, BranchWalService.ackFor,
    Std.ExtTreeMap.getElem?_insert, compare_eq_iff_eq]
  split_ifs with hbranch
  · rfl
  · rfl

/-- A request under a new key is logged, and the file is written. -/
theorem Inv.fresh (h : Inv F path returned keeper) {request : CommitRequest}
    (hnone : keeper.service.idempotent[request.key]? = none) {files : KeeperFiles}
    (hfile : files.file = some (F.toVecPretty (keeper.service.logged request))) :
    Inv F path (returned ++ [(request, .ok (keeper.service.ackFor request))])
      ⟨keeper.service.logged request, files⟩ := by
  have hfresh : ∀ entry ∈ keeper.service.commitLog, entry.key ≠ request.key := by
    intro entry hentry hkey
    have hfiled := (h.filed request.key entry.ack).2 ⟨entry, hentry, hkey, rfl⟩
    rw [hnone] at hfiled
    cases hfiled
  have hget : ∀ key : String, (keeper.service.logged request).idempotent[key]? =
      if request.key = key then some (keeper.service.ackFor request)
      else keeper.service.idempotent[key]? := by
    intro key
    simp only [BranchWalService.logged, Std.ExtTreeMap.getElem?_insert, compare_eq_iff_eq]
    rfl
  refine ⟨h.durablePath, ?_, ?_, ?_, ?_, ?_, ?_, ?_⟩
  · obtain ⟨file, tmp⟩ := files
    obtain rfl : file = _ := hfile
    have hpath : (keeper.service.logged request).durablePath = some path := h.durablePath
    exact open_toVecPretty hpath tmp
  · intro r result hmem
    rw [hget]
    rcases List.mem_append.1 hmem with hold | hnew
    · obtain ⟨ack, hresult, hack⟩ := h.answered r result hold
      refine ⟨ack, hresult, ?_⟩
      rw [if_neg, hack]
      intro hkey
      rw [← hkey, hnone] at hack
      cases hack
    · obtain ⟨rfl, rfl⟩ := Prod.mk.inj (List.mem_singleton.1 hnew)
      exact ⟨_, rfl, if_pos rfl⟩
  · intro key ack
    rw [hget]
    constructor
    · intro hack
      split_ifs at hack with hkey
      · obtain rfl := Option.some.inj hack
        exact ⟨_, List.mem_append_right _ (List.mem_singleton_self _), hkey, rfl⟩
      · obtain ⟨entry, hentry, hsame⟩ := (h.filed key ack).1 hack
        exact ⟨entry, List.mem_append_left _ hentry, hsame⟩
    · rintro ⟨entry, hentry, rfl, rfl⟩
      rcases List.mem_append.1 hentry with hold | hnew
      · rw [if_neg (hfresh entry hold).symm]
        exact (h.filed _ _).2 ⟨entry, hold, rfl, rfl⟩
      · obtain rfl := List.mem_singleton.1 hnew
        exact if_pos rfl
  · show ((keeper.service.commitLog ++ [_]).map DurableCommit.key).Nodup
    rw [List.map_append, List.nodup_append]
    refine ⟨h.keys, List.nodup_singleton _, ?_⟩
    rintro key hold key' hnew rfl
    obtain ⟨entry, hentry, rfl⟩ := List.mem_map.1 hold
    exact hfresh entry hentry (List.mem_singleton.1 hnew)
  · intro entry hentry
    rcases List.mem_append.1 hentry with hold | hnew
    · obtain ⟨r, result, hfind, hsame⟩ := h.first entry hold
      refine ⟨r, result, ?_, hsame⟩
      rw [List.find?_append, hfind]
      rfl
    · -- No request came under the key before: it would have been answered from the map.
      obtain rfl := List.mem_singleton.1 hnew
      refine ⟨request, .ok (keeper.service.ackFor request), ?_, rfl, rfl, rfl⟩
      rw [List.find?_append, List.find?_eq_none.2, Option.none_or]
      · exact List.find?_cons_of_pos (decide_eq_true rfl)
      · rintro ⟨r, result⟩ hmem hkey
        obtain ⟨ack, -, hack⟩ := h.answered r result hmem
        rw [show r.key = request.key from of_decide_eq_true hkey, hnone] at hack
        cases hack
  · intro branchId
    show ((keeper.service.logged request).branch branchId).map (·.epoch) =
      List.range' 1 ((keeper.service.logged request).branch branchId).length
    rw [branch_logged]
    split_ifs with hbranch
    · subst hbranch
      rw [List.map_append, h.epochs, List.length_append, List.length_singleton, List.range'_concat,
        List.map_singleton, h.nextEpoch]
      simp [Nat.add_comm]
    · rw [List.append_nil]
      exact h.epochs branchId
  · intro branchId
    show (keeper.service.logged request).epochFor branchId =
      ((keeper.service.logged request).branch branchId).length + 1
    rw [epochFor_logged, branch_logged]
    split_ifs with hbranch
    · subst hbranch
      rw [List.length_append, List.length_singleton, h.nextEpoch]
    · rw [List.append_nil]
      exact h.nextEpoch branchId

/-- A new service on the files is the old one. -/
theorem Inv.reopen (h : Inv F path returned keeper) :
    keeper.step F path .reopen = ([], keeper) := by
  simp only [step, h.file]

/-- What a commit does. -/
theorem Inv.step_commit_cases (h : Inv F path returned keeper) (request : CommitRequest)
    (ops : DurableWriteOps) :
    (∃ ack, keeper.service.idempotent[request.key]? = some ack ∧
        keeper.step F path (.commit request ops) = ([(request, .ok ack)], keeper)) ∨
      (keeper.service.idempotent[request.key]? = none ∧ ops.fails path = false ∧
        ∃ files : KeeperFiles, files.file = some (F.toVecPretty (keeper.service.logged request)) ∧
          keeper.step F path (.commit request ops) =
            ([(request, .ok (keeper.service.ackFor request))],
              ⟨keeper.service.logged request, files⟩)) ∨
      (keeper.service.idempotent[request.key]? = none ∧ ops.fails path = true ∧
        ∃ e files, keeper.step F path (.commit request ops) =
          ([(request, .error e)], ⟨keeper.service.logged request, files⟩)) := by
  have hpath : (keeper.service.logged request).durablePath = some path := h.durablePath
  cases hfound : keeper.service.idempotent[request.key]? with
  | some ack =>
    refine .inl ⟨ack, rfl, ?_⟩
    simp only [CommitRequest.key] at hfound
    simp only [step, BranchWalService.commit, hfound]
  | none =>
    right
    simp only [CommitRequest.key] at hfound
    cases hfails : ops.fails path with
    | false =>
      refine .inl ⟨rfl, rfl, ⟨some (F.toVecPretty (keeper.service.logged request)), none⟩, rfl, ?_⟩
      simp only [step, BranchWalService.commit, hfound, BranchWalService.persist, hpath,
        persistBodyWithOps_ok hfails]
    | true =>
      obtain ⟨e, files, hpersist⟩ := persistBodyWithOps_error hfails
        (F.toVecPretty (keeper.service.logged request)) keeper.files
      refine .inr ⟨rfl, rfl, e, files, ?_⟩
      simp only [step, BranchWalService.commit, hfound, BranchWalService.persist, hpath, hpersist]

/-- **A step keeps the invariant** when it does not fail to write a new commit. -/
theorem Inv.step (h : Inv F path returned keeper) {step : KeeperStep}
    (hstep : ∀ request ops, step = .commit request ops →
      keeper.service.idempotent[request.key]? = none → ops.fails path = false) :
    Inv F path (returned ++ (keeper.step F path step).1) (keeper.step F path step).2 := by
  cases step with
  | reopen =>
    rw [h.reopen, List.append_nil]
    exact h
  | commit request ops =>
    rcases h.step_commit_cases request ops with
      ⟨ack, hack, heq⟩ | ⟨hnone, -, files, hfile, heq⟩ | ⟨hnone, hfails, -⟩
    · rw [heq]
      exact h.known hack
    · rw [heq]
      exact h.fresh hnone hfile
    · rw [hstep request ops rfl hnone] at hfails
      cases hfails

end Keeper

/-! ### The log -/

/-- A request is for the branch and key of another. -/
def CommitRequest.SamePair (r s : CommitRequest) : Prop :=
  r.branchId = s.branchId ∧ r.idempotencyKey = s.idempotencyKey

instance (r s : CommitRequest) : Decidable (r.SamePair s) := inferInstanceAs (Decidable (_ ∧ _))

/-- The log law: the epochs of a branch are 1, 2, and so on; every request has one entry, which has
the payload of the first request for the branch and key, and the answer names it. -/
structure LogLaw (returned : List KeeperReturn) (log : List DurableCommit) : Prop where
  epochs : ∀ branchId, (log.filter fun entry => entry.branchId = branchId).map (·.epoch) =
    List.range' 1 (log.filter fun entry => entry.branchId = branchId).length
  entries : ∀ request result, (request, result) ∈ returned → ∃ entry first answer,
    (log.filter fun entry => entry.branchId = request.branchId ∧
        entry.idempotencyKey = request.idempotencyKey) = [entry] ∧
      returned.find? (fun r => r.1.SamePair request) = some (first, answer) ∧
      entry.payload = first.payload ∧
      result = .ok ⟨request.branchId, entry.epoch, request.idempotencyKey⟩

/-- A step without a write failure: a commit, or `none` for a new service. -/
def KeeperStep.quiet : Option CommitRequest → KeeperStep
  | some request => .commit request .succeed
  | none => .reopen

/-- The steps of a run without write failures. -/
def quietSteps (calls : List (Option CommitRequest)) : List KeeperStep := calls.map .quiet

theorem quietSteps_snoc (calls : List (Option CommitRequest)) (call : Option CommitRequest) :
    quietSteps (calls ++ [call]) = quietSteps calls ++ [.quiet call] := List.map_append

namespace Keeper

variable {F : KeeperFormat} {path : KeeperPath}

theorem inv_quiet (calls : List (Option CommitRequest)) :
    Inv F path ((start path).run F path (quietSteps calls)).1
      ((start path).run F path (quietSteps calls)).2 := by
  induction calls using List.reverseRecOn with
  | nil => exact inv_start
  | append_singleton calls call ih =>
    rw [quietSteps_snoc, run_snoc]
    refine ih.step fun request ops heq _ => ?_
    cases call with
    | none => cases heq
    | some r =>
      obtain ⟨-, rfl⟩ := KeeperStep.commit.inj heq
      exact DurableWriteOps.fails_succeed path

/-- The requests of a run are those that were answered. -/
theorem mem_returned_quiet (calls : List (Option CommitRequest)) (request : CommitRequest) :
    (∃ result, (request, result) ∈ ((start path).run F path (quietSteps calls)).1) ↔
      some request ∈ calls := by
  induction calls using List.reverseRecOn with
  | nil => simp [quietSteps, run]
  | append_singleton calls call ih =>
    rw [quietSteps_snoc, run_snoc, List.mem_append, ← ih]
    cases call with
    | none =>
      rw [KeeperStep.quiet, (inv_quiet calls).reopen]
      simp
    | some r =>
      simp only [KeeperStep.quiet, step, List.mem_append, List.mem_singleton, Prod.mk.injEq,
        exists_or, Option.some.injEq]
      refine or_congr Iff.rfl ⟨fun ⟨_, hr, _⟩ => hr, fun hr => ⟨_, hr, rfl⟩⟩

end Keeper

/-- A list without repeated keys has one element whose key is that of the elements that pass. -/
theorem filter_eq_singleton {α β : Type} {f : α → β} {p : α → Bool} {xs : List α}
    (hnodup : (xs.map f).Nodup) {a : α} (hmem : a ∈ xs) (ha : p a = true)
    (hsame : ∀ b ∈ xs, p b = true → f b = f a) : xs.filter p = [a] := by
  induction xs with
  | nil => exact absurd hmem List.not_mem_nil
  | cons x xs ih =>
    obtain ⟨hnot, hrest⟩ := List.nodup_cons.1 hnodup
    rcases List.mem_cons.1 hmem with rfl | hlater
    · rw [List.filter_cons_of_pos ha, List.filter_eq_nil_iff.2]
      intro b hb hp
      exact hnot (List.mem_map.2 ⟨b, hb, hsame b (List.mem_cons_of_mem _ hb) hp⟩)
    · rw [List.filter_cons_of_neg, ih hrest hlater fun b hb => hsame b (List.mem_cons_of_mem _ hb)]
      intro hp
      rw [hsame x List.mem_cons_self hp] at hnot
      exact hnot (List.mem_map_of_mem hlater)

/-- The requests of the calls are told apart by the keys under which the map files them. -/
def KeysApart (calls : List (Option CommitRequest)) : Prop :=
  ∀ r s, some r ∈ calls → some s ∈ calls → r.key = s.key → r.SamePair s

/-- The entry of a request, when the keys tell the requests apart. -/
theorem Keeper.Inv.entry {F : KeeperFormat} {path : KeeperPath} {returned : List KeeperReturn}
    {keeper : Keeper} (h : Inv F path returned keeper)
    (hapart : ∀ r s, r ∈ returned → s ∈ returned → r.1.key = s.1.key → r.1.SamePair s.1)
    {request : CommitRequest} {result : Except String CommitAck}
    (hmem : (request, result) ∈ returned) :
    ∃ entry first answer, entry ∈ keeper.service.commitLog ∧ entry.key = request.key ∧
      entry.branchId = request.branchId ∧ entry.idempotencyKey = request.idempotencyKey ∧
      returned.find? (fun r => r.1.SamePair request) = some (first, answer) ∧
      entry.payload = first.payload ∧
      result = .ok ⟨request.branchId, entry.epoch, request.idempotencyKey⟩ := by
  obtain ⟨ack, rfl, hack⟩ := h.answered request result hmem
  obtain ⟨entry, hentry, hkey, rfl⟩ := (h.filed _ _).1 hack
  obtain ⟨first, answer, hfind, hbranch, hid, hpayload⟩ := h.first entry hentry
  have hfirst := List.mem_of_find?_eq_some hfind
  have hfirstKey : first.key = entry.key := by simpa using List.find?_some hfind
  obtain ⟨hb, hi⟩ := hapart _ _ hfirst hmem (hfirstKey.trans hkey)
  refine ⟨entry, first, answer, hentry, hkey, hbranch.symm.trans hb, hid.symm.trans hi, ?_,
    hpayload.symm, ?_⟩
  · -- Among the requests of the run, the pair and the key say the same.
    rw [← hfind]
    refine List.find?_congr fun r hr => ?_
    rw [decide_eq_decide, hkey]
    constructor
    · rintro ⟨hb', hi'⟩
      rw [CommitRequest.key, CommitRequest.key, hb', hi']
    · exact fun hsame => hapart r _ hr hmem hsame
  · rw [DurableCommit.ack, ← hbranch, ← hid, hb, hi]

/-- **The log law holds just when the keys tell the requests apart.**  In every run of commits and
reopenings without write failures. -/
theorem keeper_log_iff (F : KeeperFormat) (path : KeeperPath)
    (calls : List (Option CommitRequest)) :
    LogLaw ((Keeper.start path).run F path (quietSteps calls)).1
        ((Keeper.start path).run F path (quietSteps calls)).2.service.commitLog ↔
      KeysApart calls := by
  have hinv : Keeper.Inv F path _ _ := Keeper.inv_quiet calls
  constructor
  · intro hlaw r s hr hs hkey
    obtain ⟨result, hr⟩ := (Keeper.mem_returned_quiet (F := F) calls r).2 hr
    obtain ⟨result', hs⟩ := (Keeper.mem_returned_quiet (F := F) calls s).2 hs
    obtain ⟨ack, rfl, hack⟩ := hinv.answered r result hr
    obtain ⟨ack', rfl, hack'⟩ := hinv.answered s result' hs
    rw [hkey, hack'] at hack
    obtain rfl := Option.some.inj hack
    obtain ⟨entry, -, -, -, -, -, hanswer⟩ := hlaw.entries r _ hr
    obtain ⟨entry', -, -, -, -, -, hanswer'⟩ := hlaw.entries s _ hs
    have hsame := CommitAck.mk.inj (Except.ok.inj (hanswer.symm.trans hanswer'))
    exact ⟨hsame.1, hsame.2.2⟩
  · intro hapart
    refine ⟨hinv.epochs, fun request result hmem => ?_⟩
    have hrequests : ∀ r s, r ∈ ((Keeper.start path).run F path (quietSteps calls)).1 →
        s ∈ ((Keeper.start path).run F path (quietSteps calls)).1 → r.1.key = s.1.key →
          r.1.SamePair s.1 :=
      fun r s hr hs => hapart r.1 s.1 ((Keeper.mem_returned_quiet (F := F) calls r.1).1 ⟨_, hr⟩)
        ((Keeper.mem_returned_quiet (F := F) calls s.1).1 ⟨_, hs⟩)
    obtain ⟨entry, first, answer, hentry, hkey, hb, hi, hfind, hpayload, hresult⟩ :=
      hinv.entry hrequests hmem
    refine ⟨entry, first, answer, ?_, hfind, hpayload, hresult⟩
    -- Entries for the branch and key have the same key, and keys come once.
    refine filter_eq_singleton hinv.keys hentry (by simp [hb, hi]) ?_
    intro other _ hother
    obtain ⟨hb', hi'⟩ := of_decide_eq_true hother
    rw [DurableCommit.key, DurableCommit.key, hb', hi', hb, hi]

/-! ### Keys that meet -/

namespace StreamCodec

/-- `CommitAck`. -/
def commitAck : StreamCodec CommitAck :=
  (prod string (prod nat string)).xmap (fun a => (a.branchId, a.epoch, a.idempotencyKey))
    (fun p => some ⟨p.1, p.2.1, p.2.2⟩) (fun _ => rfl)

/-- `DurableCommit`. -/
def durableCommit : StreamCodec DurableCommit :=
  (prod string (prod nat (prod string string))).xmap
    (fun c => (c.branchId, c.epoch, c.idempotencyKey, c.payload))
    (fun p => some ⟨p.1, p.2.1, p.2.2.1, p.2.2.2⟩) (fun _ => rfl)

/-- What is written of a service. -/
def keeperBody : StreamCodec (Std.ExtTreeMap String ℕ compare ×
    Std.ExtTreeMap String CommitAck compare × List DurableCommit) :=
  prod (map string nat) (prod (map string commitAck) (list durableCommit))

end StreamCodec

/-- A reference format for the file of a service. -/
def KeeperFormat.reference : KeeperFormat where
  toVecPretty service := StreamCodec.keeperBody.enc
    (service.nextEpoch, service.idempotent, service.commitLog)
  fromSlice body :=
    match StreamCodec.keeperBody.dec body with
    | some ((nextEpoch, idempotent, commitLog), _) => .ok ⟨nextEpoch, idempotent, commitLog, none⟩
    | none => .error "expected value at line 1 column 1"
  fromSlice_toVecPretty service := by
    have hdec := StreamCodec.keeperBody.dec_enc
      (service.nextEpoch, service.idempotent, service.commitLog) []
    rw [List.append_nil] at hdec
    simp only [hdec]

/-- A path with a directory above it. -/
def samplePath : KeeperPath := ⟨"keeper/state.json", some "keeper"⟩

/-- Two requests for different branches whose keys are the same text. -/
def meetingCalls : List (Option CommitRequest) :=
  [some ⟨"a\x1fb", "c", "first"⟩, some ⟨"a", "b\x1fc", "second"⟩]

/-- **Keys that meet**: the second request is acknowledged with the commit of the other branch, and
is not logged. -/
theorem keys_meet :
    let run := (Keeper.start samplePath).run .reference samplePath (quietSteps meetingCalls)
    run.1.map (·.2) = [.ok ⟨"a\x1fb", 1, "c"⟩, .ok ⟨"a\x1fb", 1, "c"⟩] ∧
      run.2.service.commitLog = [⟨"a\x1fb", 1, "c", "first"⟩] ∧
      ¬ LogLaw run.1 run.2.service.commitLog := by
  intro run
  have hreturned : run.1 = [(⟨"a\x1fb", "c", "first"⟩, .ok ⟨"a\x1fb", 1, "c"⟩),
      (⟨"a", "b\x1fc", "second"⟩, .ok ⟨"a\x1fb", 1, "c"⟩)] := by decide +kernel
  have hlog : run.2.service.commitLog = [⟨"a\x1fb", 1, "c", "first"⟩] := by decide +kernel
  refine ⟨by rw [hreturned]; rfl, hlog, fun hlaw => ?_⟩
  rw [hreturned, hlog] at hlaw
  obtain ⟨entry, -, -, hentry, -⟩ := hlaw.entries ⟨"a", "b\x1fc", "second"⟩ _
    (List.mem_cons_of_mem _ (List.mem_singleton_self _))
  have hnone : ([⟨"a\x1fb", 1, "c", "first"⟩] : List DurableCommit).filter (fun entry =>
      entry.branchId = "a" ∧ entry.idempotencyKey = "b\x1fc") = [] := by decide
  rw [hnone] at hentry
  cases hentry

end TraceDB
