import TraceDB.Engine.Reference
import TraceDB.Jobs.Recovery

/-!
# The job runtime of the server

`ServerJobRuntime`: the job catalog of one shard, with the two files it is kept in.  Every call that
changes the catalog appends its event to `events.jsonl` and then writes the whole catalog to
`catalog.json`; opening reads the catalog and applies all events of the log to it.

* `JobRuntime.Logged` : the files of a runtime hold its catalog and the events that lead to it.
* `job_runtime_recovers_iff` : opening, once or more often, gives the catalog of the runtime just
  when no job has been leased.
* `lease_counts_twice` : one lease, and the attempts are two after opening.

The shard in the checkpoint is not read back, and is left out.
-/

namespace TraceDB

/-- What the runtime takes from `serde_json`. -/
structure JobFormat where
  /-- `serde_json::to_string` of an event. -/
  eventToString : JobEvent → String
  /-- `serde_json::from_str` of an event. -/
  eventFromStr : String → Except String JobEvent
  /-- `serde_json::to_vec_pretty` of a checkpoint. -/
  checkpointToVecPretty : JobCatalog → String
  /-- `serde_json::from_str` of a checkpoint. -/
  checkpointFromStr : String → Except String JobCatalog
  eventFromStr_eventToString : ∀ event, eventFromStr (eventToString event) = .ok event
  checkpointFromStr_checkpointToVecPretty : ∀ catalog,
    checkpointFromStr (checkpointToVecPretty catalog) = .ok catalog
  /-- An event is an object on one line. -/
  eventToString_line : ∀ event, ∃ body, (eventToString event).toList = '{' :: (body ++ ['}']) ∧
    '\n' ∉ body

variable (F : JobFormat)

/-- The files `catalog.json` and `events.jsonl` of a runtime. -/
structure JobFiles where
  checkpoint : Option String
  events : Option String
  deriving DecidableEq

/-- A directory without files. -/
def JobFiles.empty : JobFiles := ⟨none, none⟩

/-- `ServerJobRuntime`. -/
structure JobRuntime where
  catalog : JobCatalog
  files : JobFiles
  deriving DecidableEq

namespace JobRuntime

variable (runtime : JobRuntime)

/-- `ServerJobRuntime::persist_event`. -/
def persistEvent (event : JobEvent) : JobRuntime :=
  { runtime with files := { runtime.files with
      events := some (runtime.files.events.getD "" ++ (F.eventToString event ++ "\n")) } }

/-- `ServerJobRuntime::persist_checkpoint`. -/
def persistCheckpoint : JobRuntime :=
  { runtime with files := { runtime.files with
      checkpoint := some (F.checkpointToVecPretty runtime.catalog) } }

/-- `ServerJobRuntime::replay_events`. -/
def replayEvents : Except String JobRuntime :=
  match runtime.files.events with
  | none => .ok runtime
  | some body => do
    let catalog ← ((Text.lines body).filter fun line => !Text.isBlank line).foldlM
      (fun catalog line => do
        let event ← F.eventFromStr line
        catalog.applyEvent event) runtime.catalog
    .ok { runtime with catalog := catalog }

/-- `ServerJobRuntime::open`. -/
def «open» (files : JobFiles) : Except String JobRuntime := do
  let catalog ← match files.checkpoint with
    | some body => F.checkpointFromStr body
    | none => .ok .empty
  let runtime ← replayEvents F ⟨catalog, files⟩
  .ok (runtime.persistCheckpoint F)

/-- The end of a call that changed the catalog. -/
def persist (catalog : JobCatalog) (event : JobEvent) : JobRuntime :=
  ({ runtime with catalog := catalog }.persistEvent F event).persistCheckpoint F

/-- `ServerJobRuntime::enqueue`. -/
def enqueue (kind : JobKind) (target idempotencyKey : String) : JobReturn × JobRuntime :=
  let (catalog, job) := runtime.catalog.enqueue kind target idempotencyKey
  (.ok (some job), runtime.persist F catalog (.enqueued job))

/-- `ServerJobRuntime::lease`. -/
def lease (workerId : String) (kind : JobKind) (nowMs leaseMs : ℕ) : JobReturn × JobRuntime :=
  match runtime.catalog.leaseNextAt workerId kind nowMs leaseMs with
  | (_, none) => (.ok none, runtime)
  | (catalog, some job) =>
    (.ok (some job), runtime.persist F catalog (.leased job.jobId workerId (job.leaseToken.getD "")
      (job.leaseExpiresAtMs.getD (saturatingAddU64 nowMs leaseMs))))

/-- `ServerJobRuntime::heartbeat`. -/
def heartbeat (jobId leaseToken : String) (nowMs leaseMs : ℕ) : JobReturn × JobRuntime :=
  match runtime.catalog.heartbeat jobId leaseToken nowMs leaseMs with
  | .error e => (.error e, runtime)
  | .ok (catalog, job) =>
    (.ok (some job), runtime.persist F catalog (.heartbeat jobId leaseToken
      (job.leaseExpiresAtMs.getD (saturatingAddU64 nowMs leaseMs))))

/-- `ServerJobRuntime::complete`. -/
def complete (jobId leaseToken : String) : JobReturn × JobRuntime :=
  match runtime.catalog.complete jobId (some leaseToken) with
  | .error e => (.error e, runtime)
  | .ok (catalog, job) => (.ok (some job), runtime.persist F catalog (.completed jobId leaseToken))

/-- `ServerJobRuntime::fail`. -/
def fail (jobId : String) (leaseToken : Option String) (error : String) (permanent : Bool)
    (nowMs : ℕ) : JobReturn × JobRuntime :=
  match runtime.catalog.fail jobId leaseToken error permanent nowMs with
  | .error e => (.error e, runtime)
  | .ok (catalog, job) =>
    (.ok (some job), runtime.persist F catalog (.failed jobId leaseToken error permanent nowMs))

/-- The calls of a runtime. -/
inductive Call where
  | enqueue (kind : JobKind) (target idempotencyKey : String)
  | lease (workerId : String) (kind : JobKind) (nowMs leaseMs : ℕ)
  | heartbeat (jobId leaseToken : String) (nowMs leaseMs : ℕ)
  | complete (jobId leaseToken : String)
  | fail (jobId : String) (leaseToken : Option String) (error : String)
      (permanent : Bool) (nowMs : ℕ)

/-- The runtime after a call. -/
def after : Call → JobRuntime
  | .enqueue kind target idempotencyKey => (runtime.enqueue F kind target idempotencyKey).2
  | .lease workerId kind nowMs leaseMs => (runtime.lease F workerId kind nowMs leaseMs).2
  | .heartbeat jobId leaseToken nowMs leaseMs =>
      (runtime.heartbeat F jobId leaseToken nowMs leaseMs).2
  | .complete jobId leaseToken => (runtime.complete F jobId leaseToken).2
  | .fail jobId leaseToken error permanent nowMs =>
    (runtime.fail F jobId leaseToken error permanent nowMs).2

/-- The runtime after a list of calls. -/
def afterAll (calls : List Call) : JobRuntime := calls.foldl (after F) runtime

/-- Opening a directory a number of times in a row. -/
def openTimes : ℕ → JobFiles → Except String JobRuntime
  | 0, files => «open» F files
  | n + 1, files => do
    let runtime ← openTimes n files
    «open» F runtime.files

/-! ### The files of a runtime -/

/-- The log file holds the events, one a line. -/
def LogHolds (files : JobFiles) (events : List JobEvent) : Prop :=
  (events = [] ∧ files.events = none) ∨
    files.events = some (Text.unlines (events.map F.eventToString))

/-- The files hold the catalog, and the events that lead to it. -/
structure Logged (runtime : JobRuntime) (events : List JobEvent) : Prop where
  checkpoint : runtime.files.checkpoint = some (F.checkpointToVecPretty runtime.catalog)
  log : LogHolds F runtime.files events
  runs : Runs JobCatalog.Emits (fun _ _ => True) .empty events runtime.catalog

variable {F} {runtime}

/-- The lines of the log are the events. -/
theorem lines_events (F : JobFormat) (events : List JobEvent) :
    (Text.lines (Text.unlines (events.map F.eventToString))).filter
      (fun line => !Text.isBlank line) =
      events.map F.eventToString := by
  have hline : ∀ text ∈ events.map F.eventToString,
      '\n' ∉ text.toList ∧ text.toList.getLast? ≠ some '\r' := by
    intro text htext
    obtain ⟨event, -, rfl⟩ := List.mem_map.1 htext
    obtain ⟨body, hbody, hnewline⟩ := F.eventToString_line event
    rw [hbody]
    refine ⟨?_, ?_⟩
    · simpa using hnewline
    · rw [← List.cons_append, List.getLast?_concat]
      decide
  rw [Text.lines_unlines hline]
  refine List.filter_eq_self.2 fun text htext => ?_
  obtain ⟨event, -, rfl⟩ := List.mem_map.1 htext
  obtain ⟨body, hbody, -⟩ := F.eventToString_line event
  rw [Text.isBlank_of_head hbody (by decide)]
  rfl

/-- Reading the events back and applying them. -/
theorem foldlM_events (F : JobFormat) (events : List JobEvent) (catalog : JobCatalog) :
    (events.map F.eventToString).foldlM (fun (catalog : JobCatalog) line => do
        let event ← F.eventFromStr line
        catalog.applyEvent event) catalog = events.foldlM JobCatalog.applyEvent catalog := by
  induction events generalizing catalog with
  | nil => rfl
  | cons event events ih =>
    rw [List.map_cons, List.foldlM_cons, List.foldlM_cons, F.eventFromStr_eventToString,
      Except.ok_bind]
    exact bind_congr fun catalog => ih catalog

/-- **What opening does** to a checkpoint and a log: all events once more. -/
theorem open_of_files {files : JobFiles} {catalog : JobCatalog} {events : List JobEvent}
    (hcheckpoint : files.checkpoint = some (F.checkpointToVecPretty catalog))
    (hlog : LogHolds F files events) :
    «open» F files = (events.foldlM JobCatalog.applyEvent catalog).map fun catalog =>
      ⟨catalog, { files with checkpoint := some (F.checkpointToVecPretty catalog) }⟩ := by
  obtain ⟨checkpoint, log⟩ := files
  dsimp only at hcheckpoint
  subst hcheckpoint
  simp only [«open», F.checkpointFromStr_checkpointToVecPretty, Except.ok_bind, replayEvents]
  rcases hlog with ⟨rfl, hnone⟩ | hsome
  · obtain rfl : log = none := hnone
    rfl
  · obtain rfl : log = _ := hsome
    simp only [lines_events, foldlM_events]
    cases events.foldlM JobCatalog.applyEvent catalog <;> rfl

theorem Logged.open_eq {events : List JobEvent} (h : runtime.Logged F events) :
    «open» F runtime.files = (events.foldlM JobCatalog.applyEvent runtime.catalog).map
      fun catalog =>
      ⟨catalog, { runtime.files with checkpoint := some (F.checkpointToVecPretty catalog) }⟩ :=
  open_of_files h.checkpoint h.log

/-- The log after a call that changed the catalog. -/
theorem LogHolds.persist {events : List JobEvent} (h : LogHolds F runtime.files events)
    (event : JobEvent) (catalog : JobCatalog) :
    LogHolds F (runtime.persist F catalog event).files (events ++ [event]) := by
  right
  have htext : runtime.files.events.getD "" = Text.unlines (events.map F.eventToString) := by
    rcases h with ⟨rfl, hnone⟩ | hsome
    · rw [hnone]
      rfl
    · rw [hsome]
      rfl
  show some (runtime.files.events.getD "" ++ (F.eventToString event ++ "\n")) = _
  rw [htext, List.map_append, Text.unlines_append]
  show _ = some (_ ++ (F.eventToString event ++ "\n" ++ ""))
  rw [String.append_empty]

/-- A call that changed the catalog leaves the files in order. -/
theorem Logged.persist {events : List JobEvent} (h : runtime.Logged F events) (event : JobEvent)
    {catalog : JobCatalog} (hemits : runtime.catalog.Emits event catalog) :
    (runtime.persist F catalog event).Logged F (events ++ [event]) where
  checkpoint := rfl
  log := LogHolds.persist h.log event catalog
  runs := h.runs.step trivial hemits

/-- An operation that asks for a token, as an event. -/
theorem emits_of_changing {catalog catalog' : JobCatalog} {job : TraceJob} (event : JobEvent)
    (hevent : event.isEnqueued = false)
    (h : catalog.changing event.jobId event.shown event.change = .ok (catalog', job)) :
    catalog.Emits event catalog' := by
  rw [JobCatalog.changing, Except.bind_eq_ok_iff] at h
  obtain ⟨⟨key, found⟩, hfound, h⟩ := h
  obtain ⟨rfl, -⟩ := Prod.mk.inj (Except.ok.inj h)
  obtain ⟨hjob, hid⟩ := JobCatalog.jobMutForToken_spec hfound
  refine .change hevent hjob hid fun token hshown => ?_
  rw [hshown] at hfound
  exact JobCatalog.jobMutForToken_token hfound

/-- **What a call does**: it leaves the runtime, or it logs an event and writes the catalog. -/
theorem after_cases (hinv : runtime.catalog.Inv) (call : Call) :
    runtime.after F call = runtime ∨ ∃ event catalog, runtime.catalog.Emits event catalog ∧
      runtime.after F call = runtime.persist F catalog event := by
  cases call with
  | enqueue kind target key =>
    refine .inr ⟨.enqueued (runtime.catalog.enqueue kind target key).2, _, ?_, rfl⟩
    simp only [JobCatalog.enqueue, JobCatalog.orInsert, TraceJob.new]
    cases hfound : runtime.catalog.jobs[key]? with
    | some existing =>
      have hkey := (hinv key existing hfound).1
      exact .known (hkey.symm ▸ hfound)
    | none => exact .new kind target hfound
  | lease workerId kind nowMs leaseMs =>
    simp only [JobRuntime.after, lease]
    rcases runtime.catalog.leaseNextAt_cases workerId kind nowMs leaseMs with
      hnone | ⟨key, job, hjob, -, -, hsome⟩
    · rw [hnone]
      exact .inl rfl
    · rw [hsome]
      refine .inr ⟨.leased job.jobId workerId (leaseTokenOf job.jobId (job.attempts + 1))
        (saturatingAddU64 nowMs (max leaseMs 1)), _, ?_, rfl⟩
      exact .change rfl hjob rfl fun token hshown => by cases hshown
  | heartbeat jobId leaseToken nowMs leaseMs =>
    simp only [JobRuntime.after, heartbeat]
    cases hcall : runtime.catalog.heartbeat jobId leaseToken nowMs leaseMs with
    | error e => exact .inl rfl
    | ok out =>
      obtain ⟨catalog, job⟩ := out
      have hexpiry : job.leaseExpiresAtMs = some (saturatingAddU64 nowMs (max leaseMs 1)) := by
        rw [JobCatalog.heartbeat_eq, JobCatalog.changing, Except.bind_eq_ok_iff] at hcall
        obtain ⟨_, -, h⟩ := hcall
        obtain ⟨-, rfl⟩ := Prod.mk.inj (Except.ok.inj h)
        rfl
      refine .inr ⟨.heartbeat jobId leaseToken
        (job.leaseExpiresAtMs.getD (saturatingAddU64 nowMs leaseMs)), catalog, ?_, rfl⟩
      rw [hexpiry]
      exact emits_of_changing (.heartbeat jobId leaseToken _) rfl hcall
  | complete jobId leaseToken =>
    simp only [JobRuntime.after, complete]
    cases hcall : runtime.catalog.complete jobId (some leaseToken) with
    | error e => exact .inl rfl
    | ok out =>
      exact .inr ⟨_, _, emits_of_changing (.completed jobId leaseToken) rfl hcall, rfl⟩
  | fail jobId leaseToken error permanent nowMs =>
    simp only [JobRuntime.after, fail]
    cases hcall : runtime.catalog.fail jobId leaseToken error permanent nowMs with
    | error e => exact .inl rfl
    | ok out =>
      exact .inr ⟨_, _,
        emits_of_changing (.failed jobId leaseToken error permanent nowMs) rfl hcall, rfl⟩

/-- **Every call keeps the files in order.** -/
theorem Logged.after {events : List JobEvent} (h : runtime.Logged F events) (call : Call) :
    ∃ events', (runtime.after F call).Logged F events' := by
  rcases after_cases (JobCatalog.inv_of_runs h.runs) call with hsame | ⟨event, catalog, hemits, heq⟩
  · exact ⟨events, hsame.symm ▸ h⟩
  · exact ⟨_, heq.symm ▸ h.persist event hemits⟩

theorem Logged.afterAll {events : List JobEvent} (h : runtime.Logged F events) (calls : List Call) :
    ∃ events', (runtime.afterAll F calls).Logged F events' := by
  induction calls generalizing runtime events with
  | nil => exact ⟨events, h⟩
  | cons call calls ih =>
    obtain ⟨events', hnext⟩ := h.after call
    exact ih hnext

/-- The runtime of an empty directory. -/
def initial (F : JobFormat) : JobRuntime :=
  ⟨.empty, some (F.checkpointToVecPretty .empty), none⟩

theorem open_empty (F : JobFormat) : «open» F .empty = .ok (initial F) := rfl

theorem logged_initial (F : JobFormat) : (initial F).Logged F [] := ⟨rfl, .inl ⟨rfl, rfl⟩, .start⟩

/-- When opening changes nothing once, it never does. -/
theorem openTimes_of_open (h : «open» F runtime.files = .ok runtime) (n : ℕ) :
    openTimes F n runtime.files = .ok runtime := by
  induction n with
  | zero => exact h
  | succ n ih => rw [openTimes, ih, Except.ok_bind, h]

/-- Opening gives the catalog of the runtime just when no job has an attempt. -/
theorem Logged.open_catalog_iff {events : List JobEvent} (h : runtime.Logged F events) :
    (∃ opened, «open» F runtime.files = .ok opened ∧ opened.catalog = runtime.catalog) ↔
      ∀ (key : String) (job : TraceJob), runtime.catalog.jobs[key]? = some job →
      job.attempts = 0 := by
  rw [← JobCatalog.replay_again_eq_iff h.runs, h.open_eq]
  constructor
  · rintro ⟨opened, hopen, hcatalog⟩
    obtain ⟨catalog, hfold, rfl⟩ := Except.map_eq_ok_iff.1 hopen
    rw [hfold]
    exact congrArg _ hcatalog
  · intro hfold
    rw [hfold]
    exact ⟨_, rfl, rfl⟩

/-- Then opening gives the runtime itself. -/
theorem Logged.open_self {events : List JobEvent} (h : runtime.Logged F events)
    (hzero : ∀ (key : String) (job : TraceJob), runtime.catalog.jobs[key]? = some job →
      job.attempts = 0) : «open» F runtime.files = .ok runtime := by
  rw [h.open_eq, (JobCatalog.replay_again_eq_iff h.runs).2 hzero]
  obtain ⟨catalog, ⟨checkpoint, log⟩⟩ := runtime
  obtain ⟨hcheckpoint, -, -⟩ := h
  dsimp only at hcheckpoint
  subst hcheckpoint
  rfl

end JobRuntime

/-- **The job runtime recovers just when no job has been leased.**  After any calls on the runtime
of a new directory, opening the directory any number of times in a row gives the catalog of the
runtime if and only if no job of it has an attempt. -/
theorem job_runtime_recovers_iff (calls : List JobRuntime.Call) :
    JobRuntime.open F .empty = .ok (.initial F) ∧
      ((∀ n, ∃ opened,
          JobRuntime.openTimes F n ((JobRuntime.initial F).afterAll F calls).files = .ok opened ∧
            opened.catalog = ((JobRuntime.initial F).afterAll F calls).catalog) ↔
        ∀ (key : String) (job : TraceJob),
          ((JobRuntime.initial F).afterAll F calls).catalog.jobs[key]? = some job →
            job.attempts = 0) := by
  obtain ⟨events, hlogged⟩ := (JobRuntime.logged_initial F).afterAll calls
  refine ⟨JobRuntime.open_empty F, fun h => hlogged.open_catalog_iff.1 (h 0), fun hzero n => ?_⟩
  exact ⟨_, JobRuntime.openTimes_of_open (hlogged.open_self hzero) n, rfl⟩

/-! ### One lease -/

/-- A byte as a character, in a range without line ends. -/
def byteChar (b : UInt8) : Char := Char.ofNat (b.toNat + 256)

/-- The byte of such a character. -/
def charByte (c : Char) : UInt8 := UInt8.ofNat (c.toNat - 256)

theorem byteChar_toNat (b : UInt8) : (byteChar b).toNat = b.toNat + 256 := by
  have hlt : b.toNat < 256 := b.toNat_lt
  have hvalid : (b.toNat + 256).isValidChar := .inl (by omega)
  rw [byteChar, Char.ofNat, dif_pos hvalid]
  rfl

@[simp] theorem charByte_byteChar (b : UInt8) : charByte (byteChar b) = b := by
  rw [charByte, byteChar_toNat, Nat.add_sub_cancel, UInt8.ofNat_toNat]

/-- A stream format as a text in braces. -/
def StreamCodec.toText {α : Type} (c : StreamCodec α) (a : α) : String :=
  String.ofList ('{' :: ((c.enc a).map byteChar ++ ['}']))

/-- Reads such a text. -/
def StreamCodec.fromText {α : Type} (c : StreamCodec α) (s : String) : Except String α :=
  match c.dec (s.toList.tail.map charByte) with
  | some (a, _) => .ok a
  | none => .error "expected value"

theorem StreamCodec.fromText_toText {α : Type} (c : StreamCodec α) (a : α) :
    c.fromText (c.toText a) = .ok a := by
  have hbytes : (c.toText a).toList.tail.map charByte = c.enc a ++ [charByte '}'] := by
    rw [toText, String.toList_ofList, List.tail_cons, List.map_append, List.map_map]
    simp [Function.comp_def]
  rw [fromText, hbytes, c.dec_enc]

/-- A reference for the texts of the runtime. -/
def JobFormat.reference : JobFormat where
  eventToString := StreamCodec.jobEvent.toText
  eventFromStr := StreamCodec.jobEvent.fromText
  checkpointToVecPretty := StreamCodec.jobCatalog.toText
  checkpointFromStr := StreamCodec.jobCatalog.fromText
  eventFromStr_eventToString := StreamCodec.fromText_toText _
  checkpointFromStr_checkpointToVecPretty := StreamCodec.fromText_toText _
  eventToString_line event := by
    refine ⟨_, String.toList_ofList .., fun hmem => ?_⟩
    obtain ⟨b, -, hb⟩ := List.mem_map.1 hmem
    have hnat := congrArg Char.toNat hb
    rw [byteChar_toNat] at hnat
    have hten : '\n'.toNat = 10 := rfl
    omega

/-- **One lease counts twice**: a job that was leased once has two attempts after opening. -/
theorem lease_counts_twice :
    let calls := [.enqueue .verifyDatabase "docs" "nightly", .lease "a" .verifyDatabase 0 10]
    let runtime := (JobRuntime.initial .reference).afterAll .reference calls
    JobRuntime.open .reference .empty = .ok (.initial .reference) ∧
    (runtime.catalog.jobs["nightly"]?.map (·.attempts)) = some 1 ∧
      ∃ opened, JobRuntime.open .reference runtime.files = .ok opened ∧
        (opened.catalog.jobs["nightly"]?.map (·.attempts)) = some 2 ∧
        opened.catalog ≠ runtime.catalog := by
  intro calls runtime
  obtain ⟨events, hlogged⟩ := (JobRuntime.logged_initial .reference).afterAll calls
  have honce : (runtime.catalog.jobs["nightly"]?.map (·.attempts)) = some 1 := by decide +kernel
  obtain ⟨job, hjob, hattempts⟩ := Option.map_eq_some_iff.1 honce
  obtain ⟨second, hfold, -, hsome⟩ := JobCatalog.replay_again hlogged.runs
  obtain ⟨u, hu, hbetween⟩ := hsome "nightly" job hjob
  have htwice : (second.jobs["nightly"]?.map (·.attempts)) = some 2 := by
    rw [hu, Option.map_some, hbetween.attempts, hattempts]
    rfl
  refine ⟨JobRuntime.open_empty _, honce, _, by rw [hlogged.open_eq, hfold]; rfl, htwice, ?_⟩
  rintro rfl
  rw [htwice] at honce
  cases honce

end TraceDB
