import Mathlib.Data.List.Chain
import TraceDB.Remote.Store

/-!
# Compare-and-swap of the manifest pointer

`compare_and_swap_manifest` asks the store for the ETag of the pointer, then for the pointer, and
puts the next pointer on the condition of the ETag.  Other clients act between the requests.

* `CasCall` : a call between two requests, with what it has read.
* `CasStep` : one request of one client, or the start of a call.
* `CasInv` : what the clients may conclude from their reads.
* `manifest_cas_linearizable` : a call that succeeds replaced a pointer of the expected generation,
  and a call that fails has changed nothing; so no update is lost.
-/

namespace TraceDB

/-- `BranchManifestPointer`. -/
structure BranchManifestPointer where
  databaseId : String
  branchId : String
  generation : UInt64
  latestEpoch : UInt64
  durableEpoch : UInt64
  objectKey : ObjectKey
  checksumSha256 : String
  deriving DecidableEq

/-- `ManifestCasRequest`. -/
structure ManifestCasRequest where
  expectedGeneration : Option UInt64
  next : BranchManifestPointer
  deriving DecidableEq

/-- `manifest_pointer_key`. -/
def manifestPointerKey (databaseId branchId : String) : ObjectKey :=
  ⟨databaseId, branchId, .manifestPointer, "pointer.json"⟩

/-- The result of `compare_and_swap_manifest`. -/
abbrev CasResult := Except StorageError Unit

/-- A call of `compare_and_swap_manifest`, by the request it makes next. -/
inductive CasCall where
  | idle
  /-- Before `s3_head_object`. -/
  | started (request : ManifestCasRequest)
  /-- Before `s3_get_object`, with the ETag that the head returned. -/
  | headed (request : ManifestCasRequest) (expected : UInt64) (head : Option String)
  /-- Before `s3_put_object`. -/
  | putting (request : ManifestCasRequest) (condition : PutCondition)
  | returned (request : ManifestCasRequest) (result : CasResult)

namespace CasCall

/-- The call has returned, or there is none. -/
def resting : CasCall → Bool
  | .idle | .returned _ _ => true
  | _ => false

/-- What a call has returned. -/
def outcome : CasCall → Option (ManifestCasRequest × CasResult)
  | .returned request result => some (request, result)
  | _ => none

end CasCall

/-- The error of a call whose expectation is not met. -/
def casFailed (request : ManifestCasRequest) : StorageError :=
  .manifestCasFailed request.next.databaseId request.next.branchId

/-- `compare_and_swap_manifest` after the head. -/
def casAfterHead (request : ManifestCasRequest) (head : Option String) : CasCall :=
  match request.expectedGeneration with
  | none => if head.isSome then .returned request (.error (casFailed request))
    else .putting request .ifAbsent
  | some expected => .headed request expected head

/-- `compare_and_swap_manifest` after the get. -/
def casAfterGet (F : RemoteFormat BranchManifestPointer) (path : String)
    (request : ManifestCasRequest) (expected : UInt64) (head : Option String) :
    Option S3Object → CasCall
  | none => .returned request (.error (.objectNotFound path))
  | some current =>
    match F.fromSlice current.bytes with
    | .error e => .returned request (.error (.provider e))
    | .ok pointer =>
      if pointer.generation ≠ expected then .returned request (.error (casFailed request))
      else
        match head with
        | none => .returned request (.error (.objectNotFound path))
        | some etag => .putting request (.ifMatchEtag etag)

/-- The object that `compare_and_swap_manifest` puts. -/
def casObject (F : RemoteFormat BranchManifestPointer) (request : ManifestCasRequest) : S3Object :=
  F.object request.next [("branch_id", request.next.branchId),
    ("database_id", request.next.databaseId),
    ("generation", toString request.next.generation.toNat)]

/-! ### Runs -/

/-- The pointer object of a branch, and the clients. -/
structure CasWorld (ι : Type) where
  cell : S3Cell
  calls : ι → CasCall

/-- A client, and what its call returned if it did so in the step. -/
abbrev CasLabel (ι : Type) := ι × Option (ManifestCasRequest × CasResult)

section

variable {ι : Type} [DecidableEq ι] (F : RemoteFormat BranchManifestPointer) (objectPrefix : String)
  (databaseId branchId : String)

/-- A client goes on. -/
def CasWorld.setCall (w : CasWorld ι) (i : ι) (call : CasCall) : CasWorld ι :=
  { w with calls := Function.update w.calls i call }

@[simp] theorem CasWorld.cell_setCall (w : CasWorld ι) (i : ι) (call : CasCall) :
    (w.setCall i call).cell = w.cell := rfl

@[simp] theorem CasWorld.calls_setCall_self (w : CasWorld ι) (i : ι) (call : CasCall) :
    (w.setCall i call).calls i = call := Function.update_self ..

theorem CasWorld.calls_setCall_of_ne (w : CasWorld ι) {i j : ι} (h : j ≠ i) (call : CasCall) :
    (w.setCall i call).calls j = w.calls j := Function.update_of_ne h ..

/-- One step of one client on the pointer of the branch. -/
inductive CasStep (w : CasWorld ι) : CasLabel ι → CasWorld ι → Prop
  | invoke {i : ι} {request : ManifestCasRequest} : (w.calls i).resting = true →
      request.next.databaseId = databaseId → request.next.branchId = branchId →
      CasStep w (i, none) (w.setCall i (.started request))
  | head {i : ι} {request : ManifestCasRequest} : w.calls i = .started request →
      CasStep w (i, (casAfterHead request w.cell.version?).outcome)
        (w.setCall i (casAfterHead request w.cell.version?))
  | get {i : ι} {request : ManifestCasRequest} {expected : UInt64} {head : Option String} :
      w.calls i = .headed request expected head →
      CasStep w
        (i, (casAfterGet F
          (objectPath objectPrefix (manifestPointerKey databaseId branchId)) request
          expected head w.cell.value?).outcome)
        (w.setCall i (casAfterGet F
          (objectPath objectPrefix (manifestPointerKey databaseId branchId)) request expected head
          w.cell.value?))
  | put {i : ι} {request : ManifestCasRequest} {condition : PutCondition} {etag : String} :
      w.calls i = .putting request condition → condition.Holds w.cell → etag ∉ w.cell.used →
      CasStep w (i, some (request, .ok ()))
        ({ w with cell := w.cell.put etag (casObject F request) }.setCall i
          (.returned request (.ok ())))
  /-- The store refuses the condition of a put. -/
  | refused {i : ι} {request : ManifestCasRequest} {condition : PutCondition} {e : StorageError} :
      w.calls i = .putting request condition → ¬ condition.Holds w.cell →
      CasStep w (i, some (request, .error e)) (w.setCall i (.returned request (.error e)))
  /-- A request that fails for another reason. -/
  | failed {i : ι} {request : ManifestCasRequest} {e : StorageError} :
      (w.calls i = .started request ∨ (∃ expected head, w.calls i = .headed request expected head) ∨
        ∃ condition, w.calls i = .putting request condition) →
      CasStep w (i, some (request, .error e)) (w.setCall i (.returned request (.error e)))

/-- The requests of the calls that succeeded, in the order of their puts. -/
def succeeded (trace : List (CasLabel ι)) : List ManifestCasRequest :=
  trace.filterMap fun
    | (_, some (request, .ok ())) => some request
    | _ => none

/-! ### What a client knows -/

/-- What a call may conclude from the requests it has made. -/
def CasCall.Knows (cell : S3Cell) : CasCall → Prop
  | .headed request expected head => request.expectedGeneration = some expected ∧
      ∀ etag, head = some etag → etag ∈ cell.used
  | .putting request .ifAbsent => request.expectedGeneration = none
  | .putting request (.ifMatchEtag etag) => cell.Pinned etag fun record =>
      ∃ pointer, F.fromSlice record.bytes = .ok pointer ∧
        request.expectedGeneration = some pointer.generation
  | .putting _ .none => False
  | _ => True

variable {F}

/-- The puts of others do not change it. -/
theorem CasCall.Knows.put {cell : S3Cell} {call : CasCall} (h : call.Knows F cell) {etag : String}
    (hnew : etag ∉ cell.used) (a : S3Object) : call.Knows F (cell.put etag a) := by
  cases call with
  | headed request expected head => exact ⟨h.1, fun e he => Versioned.mem_used_put (h.2 e he)⟩
  | putting request condition =>
    cases condition with
    | none => exact h.elim
    | ifAbsent => exact h
    | ifMatchEtag e => exact Versioned.Pinned.put h hnew a
  | idle | started | returned => trivial

theorem knows_of_resting {cell : S3Cell} {call : CasCall} (h : call.resting = true) :
    call.Knows F cell := by
  cases call with
  | idle | started | returned => trivial
  | headed | putting => cases h

theorem knows_casAfterHead (request : ManifestCasRequest) (cell : S3Cell) :
    (casAfterHead request cell.version?).Knows F cell := by
  unfold casAfterHead
  cases hexpected : request.expectedGeneration with
  | none =>
    dsimp only
    split_ifs
    · trivial
    · exact hexpected
  | some expected => exact ⟨hexpected, fun etag hetag => Versioned.mem_used_of_version? hetag⟩

theorem knows_casAfterGet {cell : S3Cell} {request : ManifestCasRequest} {expected : UInt64}
    {head : Option String} (h : (CasCall.headed request expected head).Knows F cell)
    (path : String) :
    (casAfterGet F path request expected head cell.value?).Knows F cell := by
  obtain ⟨hexpected, hused⟩ := h
  cases hvalue : cell.value? with
  | none => trivial
  | some current =>
    simp only [casAfterGet]
    cases hparse : F.fromSlice current.bytes with
    | error e => trivial
    | ok pointer =>
      dsimp only
      split_ifs with hgeneration
      · trivial
      · cases head with
        | none => trivial
        | some etag =>
          refine Versioned.pinned_of_value? (hused etag rfl) hvalue ⟨pointer, hparse, ?_⟩
          rw [hexpected, not_not.1 hgeneration]

variable {objectPrefix databaseId branchId}

/-- A successful put meets what the request expects. -/
theorem CasCall.Knows.expected {cell : S3Cell} {request : ManifestCasRequest}
    {condition : PutCondition} (h : (CasCall.putting request condition).Knows F cell)
    (hholds : condition.Holds cell) :
    (request.expectedGeneration = none ∧ cell.object = none) ∨
      ∃ pointer, F.stored cell = some pointer ∧
        request.expectedGeneration = some pointer.generation := by
  cases condition with
  | none => exact h.elim
  | ifAbsent => exact .inl ⟨h, hholds⟩
  | ifMatchEtag etag =>
    obtain ⟨record, hobject, pointer, hparse, hgeneration⟩ := Versioned.Pinned.of_version? h hholds
    refine .inr ⟨pointer, ?_, hgeneration⟩
    rw [RemoteFormat.stored, Versioned.value?, hobject]
    simp only [Option.map_some, Option.bind_some, hparse]
    rfl

theorem stored_put_casObject (cell : S3Cell) (etag : String) (request : ManifestCasRequest) :
    F.stored (cell.put etag (casObject F request)) = some request.next := by
  simp only [RemoteFormat.stored, Versioned.value?, Versioned.object_put, Option.map_some,
    Option.bind_some, casObject, RemoteFormat.object, F.fromSlice_toVec]
  rfl

/-- What the clients know, and what the puts so far have to do with the pointer. -/
structure CasInv (F : RemoteFormat BranchManifestPointer) (trace : List (CasLabel ι))
    (w : CasWorld ι) : Prop where
  knows : ∀ i, (w.calls i).Knows F w.cell
  last : ∀ request, (succeeded trace).getLast? = some request →
    F.stored w.cell = some request.next
  /-- Each call that succeeded expected the generation that the one before it stored. -/
  chain : (succeeded trace).IsChain fun r r' => r'.expectedGeneration = some r.next.generation

omit [DecidableEq ι] in
theorem succeeded_snoc_of_ne {trace : List (CasLabel ι)} {label : CasLabel ι}
    (h : ∀ request, label.2 ≠ some (request, .ok ())) :
    succeeded (trace ++ [label]) = succeeded trace := by
  obtain ⟨i, out⟩ := label
  rw [succeeded, List.filterMap_append]
  have hnone : succeeded [(i, out)] = [] := by
    match out, h with
    | none, _ => rfl
    | some (request, .error e), _ => rfl
    | some (request, .ok ()), h => exact absurd rfl (h request)
  exact (congrArg _ hnone).trans (List.append_nil _)

/-- A step that is not a put changes one call. -/
theorem CasInv.setCall {trace : List (CasLabel ι)} {w : CasWorld ι} (h : CasInv F trace w)
    {label : CasLabel ι} (hlabel : ∀ request, label.2 ≠ some (request, .ok ())) (i : ι)
    {call : CasCall} (hcall : call.Knows F w.cell) :
    CasInv F (trace ++ [label]) (w.setCall i call) where
  knows j := by
    by_cases hj : j = i
    · subst hj
      rw [CasWorld.calls_setCall_self]
      exact hcall
    · rw [CasWorld.calls_setCall_of_ne w hj]
      exact h.knows j
  last := by
    rw [succeeded_snoc_of_ne hlabel]
    exact h.last
  chain := by
    rw [succeeded_snoc_of_ne hlabel]
    exact h.chain

theorem outcome_casAfterHead (request : ManifestCasRequest) (head : Option String) :
    ∀ r, (casAfterHead request head).outcome ≠ some (r, .ok ()) := by
  intro r h
  unfold casAfterHead at h
  cases hexpected : request.expectedGeneration with
  | none =>
    simp only [hexpected] at h
    split_ifs at h
    · cases h
    · cases h
  | some expected =>
    simp only [hexpected] at h
    cases h

theorem outcome_casAfterGet (path : String) (request : ManifestCasRequest) (expected : UInt64)
    (head : Option String) (current : Option S3Object) :
    ∀ r, (casAfterGet F path request expected head current).outcome ≠ some (r, .ok ()) := by
  intro r h
  cases current with
  | none => cases h
  | some record =>
    simp only [casAfterGet] at h
    cases hparse : F.fromSlice record.bytes with
    | error e =>
      simp only [hparse] at h
      cases h
    | ok pointer =>
      simp only [hparse] at h
      split_ifs at h
      · cases h
      · cases head with
        | none => cases h
        | some etag => cases h

/-- **Every step keeps what the clients know.** -/
theorem CasInv.step {trace : List (CasLabel ι)} {w w' : CasWorld ι} {label : CasLabel ι}
    (h : CasInv F trace w) (hstep : CasStep F objectPrefix databaseId branchId w label w') :
    CasInv F (trace ++ [label]) w' := by
  cases hstep with
  | invoke => exact h.setCall (fun _ hok => by cases hok) _ trivial
  | head => exact h.setCall (outcome_casAfterHead _ _) _ (knows_casAfterHead _ _)
  | @get i request expected head hcall =>
    have hknows := h.knows i
    rw [hcall] at hknows
    exact h.setCall (outcome_casAfterGet _ _ _ _ _) i (knows_casAfterGet hknows _)
  | @put i request condition etag hcall hholds hnew =>
    have hknows := h.knows i
    rw [hcall] at hknows
    have hsucceeded : succeeded (trace ++ [(i, some (request, .ok ()))]) =
        succeeded trace ++ [request] := List.filterMap_append
    refine ⟨fun j => ?_, fun r hr => ?_, ?_⟩
    · by_cases hj : j = i
      · subst hj
        rw [CasWorld.calls_setCall_self]
        trivial
      · rw [CasWorld.calls_setCall_of_ne _ hj]
        exact (h.knows j).put hnew _
    · rw [hsucceeded, List.getLast?_concat] at hr
      obtain rfl := Option.some.inj hr
      exact stored_put_casObject _ _ _
    · rw [hsucceeded, List.isChain_append]
      refine ⟨h.chain, List.isChain_singleton _, fun r hr r' hr' => ?_⟩
      obtain rfl := Option.some.inj hr'
      -- The pointer before the put is the one that the last put stored.
      have hstored := h.last r hr
      rcases hknows.expected hholds with ⟨-, habsent⟩ | ⟨pointer, hpointer, hexpected⟩
      · rw [RemoteFormat.stored, Versioned.value?, habsent] at hstored
        cases hstored
      · rw [hstored] at hpointer
        rw [hexpected, Option.some.inj hpointer]
  | refused => exact h.setCall (fun _ hok => by cases hok) _ trivial
  | failed => exact h.setCall (fun _ hok => by cases hok) _ trivial

/-- The invariant along a run. -/
theorem casInv_of_runs {start w : CasWorld ι} {trace : List (CasLabel ι)}
    (hstart : ∀ i, (start.calls i).resting = true)
    (h : Runs (CasStep F objectPrefix databaseId branchId) (fun _ _ => True) start trace w) :
    CasInv F trace w :=
  h.invariant ⟨fun i => knows_of_resting (hstart i), (fun _ hnone => by cases hnone), .nil⟩
    fun _ _ _ _ _ hstep hinv => hinv.step hstep

/-- Along a chain of calls, a generation that is expected again was stored again. -/
theorem exists_of_expected_again {before between after : List ManifestCasRequest}
    {r r' : ManifestCasRequest} {g : UInt64}
    (h : (before ++ r :: between ++ r' :: after).IsChain
      fun r r' => r'.expectedGeneration = some r.next.generation)
    (hexpected : r'.expectedGeneration = some g) (hmoved : r.next.generation ≠ g) :
    ∃ other ∈ between, other.next.generation = g := by
  rw [List.isChain_append] at h
  obtain ⟨-, -, hlink⟩ := h
  rcases List.eq_nil_or_concat between with rfl | ⟨init, last, rfl⟩
  · have hlast : (before ++ [r]).getLast? = some r := List.getLast?_concat
    have hnext := hlink r hlast r' rfl
    rw [hexpected] at hnext
    exact absurd (Option.some.inj hnext).symm hmoved
  · rw [List.concat_eq_append] at hlink ⊢
    have hlast : (before ++ r :: (init ++ [last])).getLast? = some last := by
      rw [← List.cons_append, ← List.append_assoc, List.getLast?_concat]
    have hnext := hlink last hlast r' rfl
    rw [hexpected] at hnext
    exact ⟨last, List.mem_append_right _ (List.mem_singleton_self _), (Option.some.inj hnext).symm⟩

/-- **Compare-and-swap of the manifest is linearizable.**  Any number of clients run any calls on
the pointer of a branch, in any interleaving of their requests.  A call that succeeds stores its
next pointer, in place of a pointer whose generation is the one it expects at the instant of its
put, or where there was no object if it expects none.  No other step changes the object.  So between
two successful calls that expect the same generation, of which the first stored another one, a
successful put has stored that generation again. -/
theorem manifest_cas_linearizable {start w : CasWorld ι} {trace : List (CasLabel ι)}
    (hstart : ∀ i, (start.calls i).resting = true)
    (h : Runs (CasStep F objectPrefix databaseId branchId) (fun _ _ => True) start trace w) :
    (∀ i request w', CasStep F objectPrefix databaseId branchId w (i, some (request, .ok ())) w' →
      F.stored w'.cell = some request.next ∧
        (∀ g, request.expectedGeneration = some g →
          ∃ pointer, F.stored w.cell = some pointer ∧ pointer.generation = g) ∧
        (request.expectedGeneration = none → w.cell.object = none)) ∧
      (∀ label w', CasStep F objectPrefix databaseId branchId w label w' →
        (∀ request, label.2 ≠ some (request, .ok ())) → w'.cell = w.cell) ∧
      ∀ before r between r' after g, succeeded trace = before ++ r :: between ++ r' :: after →
        r.expectedGeneration = some g → r'.expectedGeneration = some g → r.next.generation ≠ g →
          ∃ other ∈ between, other.next.generation = g := by
  have hinv := casInv_of_runs hstart h
  refine ⟨fun i request w' hstep => ?_, fun label w' hstep hlabel => ?_, ?_⟩
  · have hinv' := hinv.step hstep
    generalize hout : (some (request, .ok ()) : Option (ManifestCasRequest × CasResult)) =
      out at hstep
    cases hstep with
    | @put _ r condition etag hcall hholds hnew =>
      obtain ⟨rfl, -⟩ := Prod.mk.inj (Option.some.inj hout)
      have hknows := hinv.knows i
      rw [hcall] at hknows
      refine ⟨stored_put_casObject _ _ _, fun g hg => ?_, fun hnone => ?_⟩
      · rcases hknows.expected hholds with ⟨hnone, -⟩ | ⟨pointer, hpointer, hexpected⟩
        · rw [hnone] at hg
          cases hg
        · rw [hexpected] at hg
          exact ⟨pointer, hpointer, Option.some.inj hg⟩
      · rcases hknows.expected hholds with ⟨-, habsent⟩ | ⟨pointer, -, hexpected⟩
        · exact habsent
        · rw [hexpected] at hnone
          cases hnone
    | invoke => cases hout
    | head => exact absurd hout.symm (outcome_casAfterHead _ _ _)
    | get => exact absurd hout.symm (outcome_casAfterGet _ _ _ _ _ _)
    | refused => cases (Prod.mk.inj (Option.some.inj hout)).2
    | failed => cases (Prod.mk.inj (Option.some.inj hout)).2
  · cases hstep with
    | @put i r condition etag hcall hholds hnew => exact absurd rfl (hlabel r)
    | invoke | head | get | refused | failed => rfl
  · rintro before r between r' after g htrace - hexpected hmoved
    exact exists_of_expected_again (htrace ▸ hinv.chain) hexpected hmoved

end

/-! ### Two clients -/

namespace StreamCodec

/-- `ObjectKind`, by its path. -/
def objectKind : StreamCodec ObjectKind :=
  string.xmap ObjectKind.asPath
    (fun text => [.walChunk, .checkpoint, .manifestPointer, .lease, .segment, .snapshot,
      .export].find? fun kind => kind.asPath = text)
    (fun kind => by cases kind <;> decide)

/-- `ObjectKey`. -/
def objectKey : StreamCodec ObjectKey :=
  (prod string (prod string (prod objectKind string))).xmap
    (fun k => (k.databaseId, k.branchId, k.kind, k.name))
    (fun p => some ⟨p.1, p.2.1, p.2.2.1, p.2.2.2⟩) (fun _ => rfl)

/-- `BranchManifestPointer`. -/
def branchManifestPointer : StreamCodec BranchManifestPointer :=
  (prod string (prod string (prod uint64 (prod uint64 (prod uint64 (prod objectKey string)))))).xmap
    (fun p => (p.databaseId, p.branchId, p.generation, p.latestEpoch, p.durableEpoch, p.objectKey,
      p.checksumSha256))
    (fun p => some ⟨p.1, p.2.1, p.2.2.1, p.2.2.2.1, p.2.2.2.2.1, p.2.2.2.2.2.1, p.2.2.2.2.2.2⟩)
    (fun _ => rfl)

end StreamCodec

/-- A pointer of the branch `main`. -/
def samplePointer (generation : UInt64) : BranchManifestPointer :=
  ⟨"db", "main", generation, 1, 1, ⟨"db", "main", .checkpoint, "c"⟩, "sha256:00"⟩

/-- A client has created the pointer, and another one is about to move it on. -/
theorem exists_second_put (F : RemoteFormat BranchManifestPointer) :
    ∃ (w : CasWorld Bool) (trace : List (CasLabel Bool)),
      Runs (CasStep F "" "db" "main") (fun _ _ => True) ⟨.empty, fun _ => .idle⟩ trace w ∧
      w.calls true = .putting ⟨some 1, samplePointer 2⟩ (.ifMatchEtag "e1") ∧
      w.cell.version? = some "e1" ∧ "e2" ∉ w.cell.used := by
  -- The first client: start, head, put.
  have h₁ := @Runs.step _ _ (CasStep F "" "db" "main") _ _ _ _ _ _
    (@Runs.start (CasWorld Bool) _ _ (fun _ _ => True) ⟨.empty, fun _ => .idle⟩) trivial
    (@CasStep.invoke _ _ _ _ _ _ _ false ⟨none, samplePointer 1⟩ rfl rfl rfl)
  have h₂ := h₁.step trivial (@CasStep.head _ _ _ _ _ _ _ false ⟨none, samplePointer 1⟩ rfl)
  have h₃ := h₂.step trivial
    (@CasStep.put _ _ _ _ _ _ _ false ⟨none, samplePointer 1⟩ .ifAbsent "e1"
    rfl rfl (Set.notMem_empty _))
  -- The second client: start, head, get.
  have h₄ := h₃.step trivial
    (@CasStep.invoke _ _ _ _ _ _ _ true ⟨some 1, samplePointer 2⟩ rfl rfl rfl)
  have h₅ := h₄.step trivial (@CasStep.head _ _ _ _ _ _ _ true ⟨some 1, samplePointer 2⟩ rfl)
  have h₆ := h₅.step trivial
    (@CasStep.get _ _ _ _ _ _ _ true ⟨some 1, samplePointer 2⟩ 1 (some "e1") rfl)
  have hget : casAfterGet F (objectPath "" (manifestPointerKey "db" "main"))
      ⟨some 1, samplePointer 2⟩ 1 (some "e1") (some (casObject F ⟨none, samplePointer 1⟩)) =
        .putting ⟨some 1, samplePointer 2⟩ (.ifMatchEtag "e1") := by
    simp only [casAfterGet, casObject, RemoteFormat.object, F.fromSlice_toVec]
    rfl
  exact ⟨_, _, h₆, (CasWorld.calls_setCall_self _ _ _).trans hget, rfl,
    by simp [CasWorld.setCall, Versioned.put, Versioned.empty]⟩

theorem manifest_cas_linearizable_two :
    ∃ (w w' : CasWorld Bool) (trace : List (CasLabel Bool)),
      Runs (CasStep (.ofCodec .branchManifestPointer) "" "db" "main") (fun _ _ => True)
        ⟨.empty, fun _ => .idle⟩ trace w ∧
      CasStep (.ofCodec .branchManifestPointer) "" "db" "main" w
        (true, some (⟨some 1, samplePointer 2⟩, .ok ())) w' ∧
      RemoteFormat.stored (.ofCodec .branchManifestPointer) w'.cell = some (samplePointer 2) ∧
      ∃ pointer, RemoteFormat.stored (.ofCodec .branchManifestPointer) w.cell = some pointer ∧
        pointer.generation = 1 := by
  obtain ⟨w, trace, hrun, hcall, hversion, hnew⟩ :=
    exists_second_put (.ofCodec .branchManifestPointer)
  have hput : CasStep (.ofCodec .branchManifestPointer) "" "db" "main" w _ _ :=
    .put hcall hversion hnew
  obtain ⟨hafter, hbefore, -⟩ := (manifest_cas_linearizable (fun _ => rfl) hrun).1 true _ _ hput
  exact ⟨w, _, trace, hrun, hput, hafter, hbefore 1 rfl⟩

end TraceDB
