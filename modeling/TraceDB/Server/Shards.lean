import TraceDB.Core.Names
import TraceDB.Server.Restart

/-!
# The directories of the shards

`EngineHandle::for_actor` serves a pair of names from a directory of its own: the data root for the
two names of the default shard, and `shards/DATABASE/BRANCH` below it for any other.

* `shardDir_eq_iff` : which pairs share a directory.  An underscore is not spelled out, so a name
  can be another one with some of its bytes spelled already.
* `Server.Locks` : a directory has at most one handle, and is closed or held by it.
* `Step.effect` : what one step does to the handles and the directories.
* `shards_apart_iff` : when two pairs are kept apart, in their directories and along every run.

What is written for a pair goes through its handle.  Snapshots and restores copy files to a
directory that they are given, and have no part in this.
-/

namespace TraceDB

variable {P : ServerFormat}

/-! ### Names -/

/-- The names that `safe_shard_component` maps to one component. -/
def SameShardName (a b : String) : Prop :=
  SameName a b ∨ (a ∈ ["", "_empty"] ∧ b ∈ ["", "_empty"]) ∨
    (a ∈ [".", "..", "_invalid"] ∧ b ∈ [".", "..", "_invalid"])

theorem safeShardComponent_eq (value : String) :
    safeShardComponent value =
      if value = "." ∨ value = ".." then "_invalid"
      else if value = "" then "_empty" else spelledName value := by
  have hloop : safeShardComponent value =
      if (decide (value = ".") || decide (value = "..")) = true then "_invalid"
      else if spelledName value = "" then "_empty" else spelledName value := rfl
  rw [hloop, if_congr spelledName_eq_empty rfl rfl]
  simp only [Bool.or_eq_true, decide_eq_true_eq]

theorem unmarked_invalidNames : ∀ word ∈ [".", "..", "_invalid"], Unmarked word := by
  decide +kernel

theorem unmarked_blankNames : ∀ word ∈ ["", "_empty"], Unmarked word := by decide +kernel

/-- The three kinds of names. -/
theorem safeShardComponent_cases (value : String) :
    (value ∈ [".", "..", "_invalid"] ∧ safeShardComponent value = "_invalid") ∨
      (value ∈ ["", "_empty"] ∧ safeShardComponent value = "_empty") ∨
      (value ∉ [".", "..", "_invalid"] ∧ value ∉ ["", "_empty"] ∧
        safeShardComponent value = spelledName value) := by
  by_cases hinvalid : value ∈ [".", "..", "_invalid"]
  · left
    refine ⟨hinvalid, ?_⟩
    simp only [List.mem_cons, List.not_mem_nil, or_false] at hinvalid
    rcases hinvalid with rfl | rfl | rfl <;> decide +kernel
  · right
    by_cases hblank : value ∈ ["", "_empty"]
    · left
      refine ⟨hblank, ?_⟩
      rcases List.mem_pair.1 hblank with rfl | rfl <;> decide +kernel
    · right
      refine ⟨hinvalid, hblank, ?_⟩
      simp only [List.mem_cons, List.not_mem_nil, or_false, not_or] at hinvalid hblank
      rw [safeShardComponent_eq, if_neg (by rintro (h | h) <;> simp_all), if_neg hblank.1]

theorem safeShardComponent_eq_invalid {value : String} :
    safeShardComponent value = "_invalid" ↔ value ∈ [".", "..", "_invalid"] := by
  rcases safeShardComponent_cases value with ⟨hmem, heq⟩ | ⟨hmem, heq⟩ | ⟨hinvalid, -, heq⟩
  · exact iff_of_true heq hmem
  · rw [heq]
    exact iff_of_false (by decide)
      ((by decide : ∀ v ∈ ["", "_empty"], v ∉ [".", "..", "_invalid"]) _ hmem)
  · rw [heq, (unmarked_invalidNames "_invalid" (by decide)).spelledName_iff]
    exact iff_of_false (fun h => hinvalid (by rw [h]; decide)) hinvalid

theorem safeShardComponent_eq_empty {value : String} :
    safeShardComponent value = "_empty" ↔ value ∈ ["", "_empty"] := by
  rcases safeShardComponent_cases value with ⟨hmem, heq⟩ | ⟨hmem, heq⟩ | ⟨-, hblank, heq⟩
  · rw [heq]
    exact iff_of_false (by decide)
      ((by decide : ∀ v ∈ [".", "..", "_invalid"], v ∉ ["", "_empty"]) _ hmem)
  · exact iff_of_true heq hmem
  · rw [heq, (unmarked_blankNames "_empty" (by decide)).spelledName_iff]
    exact iff_of_false (fun h => hblank (by rw [h]; decide)) hblank

/-- **The names with one component.** -/
theorem safeShardComponent_eq_iff {a b : String} :
    safeShardComponent a = safeShardComponent b ↔ SameShardName a b := by
  rw [SameShardName, ← safeShardComponent_eq_empty, ← safeShardComponent_eq_empty,
    ← safeShardComponent_eq_invalid, ← safeShardComponent_eq_invalid]
  constructor
  · intro h
    rcases safeShardComponent_cases a with ⟨-, ha⟩ | ⟨-, ha⟩ | ⟨-, -, ha⟩
    · exact .inr (.inr ⟨ha, h.symm.trans ha⟩)
    · exact .inr (.inl ⟨ha, h.symm.trans ha⟩)
    · rcases safeShardComponent_cases b with ⟨-, hb⟩ | ⟨-, hb⟩ | ⟨-, -, hb⟩
      · exact .inr (.inr ⟨h.trans hb, hb⟩)
      · exact .inr (.inl ⟨h.trans hb, hb⟩)
      · exact .inl (spelledName_eq_iff.1 (ha.symm.trans (h.trans hb)))
  · rintro (hsame | ⟨ha, hb⟩ | ⟨ha, hb⟩)
    · rcases safeShardComponent_cases a with ⟨ha, heq⟩ | ⟨ha, heq⟩ | ⟨hinvalid, hblank, heq⟩
      · rw [heq, safeShardComponent_eq_invalid.2 ((hsame.mem_iff unmarked_invalidNames).1 ha)]
      · rw [heq, safeShardComponent_eq_empty.2 ((hsame.mem_iff unmarked_blankNames).1 ha)]
      · rcases safeShardComponent_cases b with ⟨hb, -⟩ | ⟨hb, -⟩ | ⟨-, -, hb⟩
        · exact absurd ((hsame.mem_iff unmarked_invalidNames).2 hb) hinvalid
        · exact absurd ((hsame.mem_iff unmarked_blankNames).2 hb) hblank
        · rw [heq, hb, spelledName_eq_iff.2 hsame]
    · rw [ha, hb]
    · rw [ha, hb]

theorem slash_notMem_safeShardComponent (value : String) :
    '/' ∉ (safeShardComponent value).toList := by
  rcases safeShardComponent_cases value with ⟨-, h⟩ | ⟨-, h⟩ | ⟨-, -, h⟩
  · rw [h]
    decide
  · rw [h]
    decide
  · rw [h]
    exact slash_notMem_spelledName value

theorem properName_safeShardComponent (value : String) : ProperName (safeShardComponent value) := by
  rcases safeShardComponent_cases value with ⟨-, h⟩ | ⟨-, h⟩ | ⟨hinvalid, hblank, h⟩
  · rw [h]
    decide
  · rw [h]
    decide
  · simp only [List.mem_cons, List.not_mem_nil, or_false, not_or] at hinvalid hblank
    rw [h, ProperName, ne_eq, spelledName_eq_empty, ne_eq,
      (unmarked_invalidNames "." (by decide)).spelledName_iff, ne_eq,
      (unmarked_invalidNames ".." (by decide)).spelledName_iff]
    exact ⟨hblank.1, hinvalid.1, hinvalid.2.1⟩

/-! ### Directories -/

/-- The directory from which `EngineHandle::for_actor` serves a pair. -/
def shardDir (rootDir : String) (key : ShardKey) : String :=
  if key.isDefault then rootDir else shardPath rootDir key

/-- The pairs of other shards that differ only by names with one component. -/
structure SameShard (a b : ShardKey) : Prop where
  left : a.isDefault = false
  right : b.isDefault = false
  databaseId : SameShardName a.databaseId b.databaseId
  branchId : SameShardName a.branchId b.branchId

theorem shardPath_def (rootDir : String) (key : ShardKey) :
    shardPath rootDir key = rootDir ++ "/" ++ ("shards" ++ "/" ++
      (safeShardComponent key.databaseId ++ "/" ++ safeShardComponent key.branchId)) := by
  have hshards : "/shards/" = "/" ++ "shards" ++ "/" := by simp
  have hpath : shardPath rootDir key = rootDir ++ "/shards/" ++ safeShardComponent key.databaseId ++
      "/" ++ safeShardComponent key.branchId := by
    cases key
    rfl
  simp only [hpath, hshards, String.append_assoc]

/-- The directory of another shard is two levels below `shards`. -/
theorem pathComponents_shardPath (rootDir : String) (key : ShardKey) :
    pathComponents (shardPath rootDir key) = pathComponents rootDir ++
      ["shards", safeShardComponent key.databaseId, safeShardComponent key.branchId] := by
  have hshards : pathComponents "shards" = ["shards"] := by decide +kernel
  rw [shardPath_def, pathComponents_append, pathComponents_append, pathComponents_append, hshards,
    pathComponents_of_notMem (slash_notMem_safeShardComponent _),
    pathComponents_of_notMem (slash_notMem_safeShardComponent _)]
  simp only [List.cons_append, List.nil_append]

theorem shardPath_eq_iff {rootDir : String} {a b : ShardKey} :
    shardPath rootDir a = shardPath rootDir b ↔
      SameShardName a.databaseId b.databaseId ∧ SameShardName a.branchId b.branchId := by
  rw [← safeShardComponent_eq_iff, ← safeShardComponent_eq_iff]
  constructor
  · intro h
    have hparts := congrArg pathComponents h
    rw [pathComponents_shardPath, pathComponents_shardPath, List.append_right_inj] at hparts
    simp only [List.cons.injEq, true_and, and_true] at hparts
    exact hparts
  · rintro ⟨hdatabase, hbranch⟩
    rw [shardPath_def, shardPath_def, hdatabase, hbranch]

theorem shardPath_ne_root (rootDir : String) (key : ShardKey) :
    shardPath rootDir key ≠ rootDir := by
  intro h
  have hparts := congrArg (fun path => (pathComponents path).length) h
  simp only [pathComponents_shardPath, List.length_append, List.length_cons,
    List.length_nil] at hparts
  omega

/-- **The pairs with one directory.** -/
theorem shardDir_eq_iff {rootDir : String} {a b : ShardKey} :
    shardDir rootDir a = shardDir rootDir b ↔
      (a.isDefault = true ∧ b.isDefault = true) ∨ SameShard a b := by
  unfold shardDir
  cases ha : a.isDefault <;> cases hb : b.isDefault
  · simp only [Bool.false_eq_true, if_false, false_and, false_or, shardPath_eq_iff]
    exact ⟨fun h => ⟨ha, hb, h.1, h.2⟩, fun h => ⟨h.databaseId, h.branchId⟩⟩
  · simp only [Bool.false_eq_true, if_false, if_true, false_and, false_or]
    exact iff_of_false (shardPath_ne_root rootDir a) fun h => by simp [h.right] at hb
  · simp only [Bool.false_eq_true, if_false, if_true, and_false, false_or]
    exact iff_of_false (shardPath_ne_root rootDir b).symm fun h => by simp [h.left] at ha
  · simp

/-! ### Handles and locks -/

/-- The handles and directories of a server are those of another. -/
structure Server.SameFiles (s s' : Server) : Prop where
  root : s'.root = s.root
  shards : s'.shards = s.shards
  dirs : s'.dirs = s.dirs

theorem Server.SameFiles.refl (s : Server) : s.SameFiles s := ⟨rfl, rfl, rfl⟩

theorem Server.sameFiles_answered (s : Server) (i : ℕ) (q : Request) (response : String) :
    s.SameFiles (s.answered i q response) := by
  unfold Server.answered
  split_ifs <;> exact ⟨rfl, rfl, rfl⟩

/-- What a step does to the handles and directories. -/
inductive Effect (P : ServerFormat) (s : Server) (label : Label) (s' : Server) : Prop
  | quiet : s.SameFiles s' → Effect P s label s'
  /-- The shard of a request is opened, unless it is open. -/
  | opened {q : Request} {opened : Server} : label.request = some q →
      s.forActor P q = .ok opened → opened.SameFiles s' → Effect P s label s'
  /-- The handle of a request has got further. -/
  | wrote {q : Request} {db db' : Db} : label.request = some q → s.db q.shard = some db →
      (∀ dir, Reachable P.toEngineFormat dir db → Reachable P.toEngineFormat dir db') →
      (s.setDb q.shard db').SameFiles s' → Effect P s label s'
  | restarted {disk : Disk} {dirs : String → Option Disk} : label = .restarted →
      Halts P s s.root (fun key => key.isDefault = true) disk → Closes P s dirs →
      openServerState P disk dirs = .ok s' → Effect P s label s'

theorem Step.effect {s s' : Server} {label : Label} (h : Step P s label s') :
    Effect P s label s' := by
  cases h with
  | arrive i q _ hactor => exact .opened rfl hactor ⟨rfl, rfl, rfl⟩
  | refuse i q _ _ => exact .quiet (.refl s)
  | replay _ _ => exact .quiet ⟨rfl, rfl, rfl⟩
  | miss _ _ => exact .quiet ⟨rfl, rfl, rfl⟩
  | execute _ hdb hsection =>
    exact .wrote rfl hdb (fun dir hreach => (hsection.spec hreach).reachable)
      (Server.sameFiles_answered ..)
  | fail _ hdb hsection =>
    exact .wrote rfl hdb (fun dir hreach => (hsection.spec hreach).reachable) ⟨rfl, rfl, rfl⟩
  | record _ _ hdb hrun =>
    exact .wrote rfl hdb (fun dir hreach => hreach.of_run hrun) ⟨rfl, rfl, rfl⟩
  | unrecord _ _ hdb hrun =>
    exact .wrote rfl hdb (fun dir hreach => hreach.of_run hrun) ⟨rfl, rfl, rfl⟩
  | insert _ _ => exact .quiet ⟨rfl, rfl, rfl⟩
  | drop _ _ => exact .quiet ⟨rfl, rfl, rfl⟩
  | restart hroot hdirs hopen => exact .restarted rfl hroot hdirs hopen

/-- Each directory of another shard is closed, or held by the one handle on it; the handle on the
data root is one of a run. -/
structure Server.Locks (P : ServerFormat) (rootDir : String) (s : Server) : Prop where
  root : Reachable P.toEngineFormat rootDir s.root
  other : ∀ key db, s.shards key = some db → key.isDefault = false
  held : ∀ key db, s.shards key = some db → s.dirs (shardPath rootDir key) = none
  single : ∀ key db key' db', s.shards key = some db → s.shards key' = some db' →
    shardPath rootDir key = shardPath rootDir key' → key = key'

namespace Server.Locks

variable {rootDir : String} {s s' : Server}

theorem rootDir_eq (h : s.Locks P rootDir) : s.root.disk.dir = rootDir := h.root.disk_dir

theorem congr (h : s.Locks P rootDir) (hsame : s.SameFiles s') : s'.Locks P rootDir := by
  obtain ⟨hroot, hshards, hdirs⟩ := hsame
  refine ⟨hroot ▸ h.root, ?_, ?_, ?_⟩
  · rw [hshards]
    exact h.other
  · rw [hshards, hdirs]
    exact h.held
  · rw [hshards]
    exact h.single

theorem forActor (h : s.Locks P rootDir) {q : Request} (hactor : s.forActor P q = .ok s') :
    s'.Locks P rootDir := by
  rcases Server.forActor_cases hactor with rfl | ⟨disk, db, hother, hdisk, -, rfl⟩
  · exact h
  rw [h.rootDir_eq] at hdisk
  -- A handle that is open already has another directory, since this one was closed.
  have hne : ∀ key db', s.shards key = some db' →
      shardPath rootDir key ≠ shardPath rootDir q.shard := by
    intro key db' hdb' heq
    have hheld := h.held key db' hdb'
    rw [heq, hdisk] at hheld
    cases hheld
  refine ⟨h.root, fun key db' hdb' => ?_, fun key db' hdb' => ?_,
    fun key db' key' db'' hdb' hdb'' hpath => ?_⟩
  · rcases eq_or_of_update_some hdb' with ⟨rfl, -⟩ | ⟨-, hold⟩
    · exact hother
    · exact h.other key db' hold
  · simp only [h.rootDir_eq]
    rcases eq_or_of_update_some hdb' with ⟨rfl, -⟩ | ⟨-, hold⟩
    · exact Function.update_self ..
    · rw [Function.update_of_ne (hne key db' hold)]
      exact h.held key db' hold
  · rcases eq_or_of_update_some hdb' with ⟨rfl, -⟩ | ⟨-, hold⟩
    · rcases eq_or_of_update_some hdb'' with ⟨rfl, -⟩ | ⟨-, hold'⟩
      · rfl
      · exact absurd hpath.symm (hne key' db'' hold')
    · rcases eq_or_of_update_some hdb'' with ⟨rfl, -⟩ | ⟨-, hold'⟩
      · exact absurd hpath (hne key db' hold)
      · exact h.single key db' key' db'' hold hold' hpath

theorem setDb (h : s.Locks P rootDir) {key : ShardKey} {db db' : Db} (hdb : s.db key = some db)
    (hreach : ∀ dir, Reachable P.toEngineFormat dir db → Reachable P.toEngineFormat dir db') :
    (s.setDb key db').Locks P rootDir := by
  unfold Server.db at hdb
  cases hdefault : key.isDefault with
  | true =>
    rw [hdefault, if_pos rfl] at hdb
    obtain rfl := Option.some.inj hdb
    rw [Server.setDb_default hdefault]
    exact ⟨hreach _ h.root, h.other, h.held, h.single⟩
  | false =>
    rw [hdefault, if_neg Bool.false_ne_true] at hdb
    -- The handle was open before, so its directory is held and it is the only one there.
    have hold : ∀ key' db'', Function.update s.shards key (some db') key' = some db'' →
        ∃ old, s.shards key' = some old := by
      intro key' db'' hdb''
      rcases eq_or_of_update_some hdb'' with ⟨rfl, -⟩ | ⟨-, hold⟩
      · exact ⟨db, hdb⟩
      · exact ⟨db'', hold⟩
    rw [Server.setDb_other hdefault]
    refine ⟨h.root, fun key' db'' hdb'' => ?_, fun key' db'' hdb'' => ?_,
      fun key₁ db₁ key₂ db₂ hdb₁ hdb₂ hpath => ?_⟩
    · obtain ⟨old, hshards⟩ := hold key' db'' hdb''
      exact h.other key' old hshards
    · obtain ⟨old, hshards⟩ := hold key' db'' hdb''
      exact h.held key' old hshards
    · obtain ⟨old₁, hshards₁⟩ := hold key₁ db₁ hdb₁
      obtain ⟨old₂, hshards₂⟩ := hold key₂ db₂ hdb₂
      exact h.single key₁ old₁ key₂ old₂ hshards₁ hshards₂ hpath

theorem opened {disk : Disk} {dirs : String → Option Disk} (h : openServerState P disk dirs = .ok s)
    (hroot : ∀ db, Db.open P.toEngineFormat disk = .ok db → Reachable P.toEngineFormat rootDir db) :
    s.Locks P rootDir := by
  obtain ⟨db, hdb, hopen, hshards, -, -, -⟩ := openServerState_eq h
  have hnone : ∀ key db', s.shards key ≠ some db' := by
    intro key db' hsome
    rw [hshards] at hsome
    cases hsome
  exact ⟨(hroot db hdb).reopen hopen, fun key db' h => absurd h (hnone key db'),
    fun key db' h => absurd h (hnone key db'), fun key db' _ _ h => absurd h (hnone key db')⟩

theorem halted (h : s.Locks P rootDir) {disk : Disk} {here : ShardKey → Prop}
    (hhalts : Halts P s s.root here disk) (db : Db)
    (hopen : Db.open P.toEngineFormat disk = .ok db) :
    Reachable P.toEngineFormat rootDir db := by
  cases hhalts with
  | idle => exact h.root.reopen hopen
  | inside k n _ _ _ hplan hrun => exact h.root.crash k n hplan hrun hopen

/-- **Every step keeps the locks.** -/
theorem step (h : s.Locks P rootDir) {label : Label} (hstep : Step P s label s') :
    s'.Locks P rootDir := by
  cases hstep.effect with
  | quiet hsame => exact h.congr hsame
  | opened _ hactor hsame => exact (h.forActor hactor).congr hsame
  | wrote _ hdb hreach hsame => exact (h.setDb hdb hreach).congr hsame
  | restarted _ hroot _ hopen => exact .opened hopen fun db hdb => h.halted hroot db hdb

theorem runs {allowed : Server → Label → Prop} {start : Server} (hstart : start.Locks P rootDir)
    {trace : List Label} (h : Runs (Step P) allowed start trace s) : s.Locks P rootDir :=
  h.invariant (I := fun _ s => s.Locks P rootDir) hstart fun _ _ _ _ _ hstep hs => hs.step hstep

end Server.Locks

/-! ### What is behind a pair -/

/-- The files in the directory of a pair. -/
inductive Server.Behind (s : Server) (key : ShardKey) : Disk → Prop
  | root : key.isDefault = true → s.Behind key s.root.disk
  | closed {disk : Disk} : key.isDefault = false →
      s.dirs (shardPath s.root.disk.dir key) = some disk → s.Behind key disk
  | held {holder : ShardKey} {db : Db} : key.isDefault = false → s.shards holder = some db →
      shardPath s.root.disk.dir holder = shardPath s.root.disk.dir key → s.Behind key db.disk

/-- A step is not about a request for the directory of a pair. -/
def Label.Spares (rootDir : String) (key : ShardKey) (label : Label) : Prop :=
  ∀ q, label.request = some q → shardDir rootDir q.shard ≠ shardDir rootDir key

/-- No request for the directory of a pair is on its way. -/
def Server.NoneFor (rootDir : String) (key : ShardKey) (s : Server) : Prop :=
  ∀ i flight, s.flights i = some flight →
    shardDir rootDir flight.request.shard ≠ shardDir rootDir key

/-- Two states of a server agree on all that is behind a pair. -/
structure Server.Agree (rootDir : String) (key : ShardKey) (s s' : Server) : Prop where
  root : key.isDefault = true → s'.root = s.root
  dirs : key.isDefault = false → s'.dirs (shardPath rootDir key) = s.dirs (shardPath rootDir key)
  shards : key.isDefault = false → ∀ holder, shardPath rootDir holder = shardPath rootDir key →
    s'.shards holder = s.shards holder

namespace Server.Agree

variable {rootDir : String} {key : ShardKey} {s s' : Server}

theorem symm (h : s.Agree rootDir key s') : s'.Agree rootDir key s :=
  ⟨fun hkey => (h.root hkey).symm, fun hkey => (h.dirs hkey).symm,
    fun hkey holder hpath => (h.shards hkey holder hpath).symm⟩

theorem of_sameFiles (h : s.SameFiles s') : s.Agree rootDir key s' :=
  ⟨fun _ => h.root, fun _ => by rw [h.dirs], fun _ _ _ => by rw [h.shards]⟩

theorem trans {s'' : Server} (h : s.Agree rootDir key s') (h' : s'.Agree rootDir key s'') :
    s.Agree rootDir key s'' :=
  ⟨fun hkey => (h'.root hkey).trans (h.root hkey), fun hkey => (h'.dirs hkey).trans (h.dirs hkey),
    fun hkey holder hpath => (h'.shards hkey holder hpath).trans (h.shards hkey holder hpath)⟩

theorem db_eq (h : s.Agree rootDir key s') : s'.db key = s.db key := by
  unfold Server.db
  cases hkey : key.isDefault with
  | true =>
    rw [h.root hkey]
    rfl
  | false => exact h.shards hkey key rfl

theorem behind (h : s.Agree rootDir key s') (hlocks : s.Locks P rootDir)
    (hlocks' : s'.Locks P rootDir) {disk : Disk} (hbehind : s.Behind key disk) :
      s'.Behind key disk := by
  cases hbehind with
  | root hkey =>
    rw [← h.root hkey]
    exact .root hkey
  | closed hkey hdisk =>
    refine .closed hkey ?_
    rw [hlocks'.rootDir_eq, h.dirs hkey, ← hlocks.rootDir_eq]
    exact hdisk
  | held hkey hdb hpath =>
    rw [hlocks.rootDir_eq] at hpath
    refine .held hkey ((h.shards hkey _ hpath).trans hdb) ?_
    rw [hlocks'.rootDir_eq]
    exact hpath

theorem behind_iff (h : s.Agree rootDir key s') (hlocks : s.Locks P rootDir)
    (hlocks' : s'.Locks P rootDir) (disk : Disk) : s'.Behind key disk ↔ s.Behind key disk :=
  ⟨h.symm.behind hlocks' hlocks, h.behind hlocks hlocks'⟩

end Server.Agree

/-- Directories of other shards that differ. -/
theorem shardPath_ne_of_shardDir_ne {rootDir : String} {a b : ShardKey} (ha : a.isDefault = false)
    (hb : b.isDefault = false) (h : shardDir rootDir a ≠ shardDir rootDir b) :
    shardPath rootDir a ≠ shardPath rootDir b := by
  simpa [shardDir, ha, hb] using h

/-- **A request for another directory** leaves everything behind a pair as it is. -/
theorem Step.agree {rootDir : String} {key : ShardKey} {s s' : Server} {label : Label}
    (hlocks : s.Locks P rootDir) (hstep : Step P s label s') (hspares : label.Spares rootDir key)
    (hlabel : label ≠ .restarted) : s.Agree rootDir key s' := by
  cases hstep.effect with
  | quiet hsame => exact .of_sameFiles hsame
  | @opened q _ hrequest hactor hsame =>
    refine Server.Agree.trans ?_ (.of_sameFiles hsame)
    rcases Server.forActor_cases hactor with rfl | ⟨disk, db, hother, -, -, rfl⟩
    · exact .of_sameFiles (.refl _)
    · have hne : key.isDefault = false → shardPath rootDir q.shard ≠ shardPath rootDir key :=
        fun hkey => shardPath_ne_of_shardDir_ne hother hkey (hspares q hrequest)
      refine ⟨fun _ => rfl, fun hkey => ?_, fun hkey holder hpath => ?_⟩
      · simp only [hlocks.rootDir_eq]
        exact Function.update_of_ne (hne hkey).symm ..
      · refine Function.update_of_ne ?_ ..
        rintro rfl
        exact hne hkey hpath
  | @wrote q db db' hrequest hdb _ hsame =>
    refine Server.Agree.trans ?_ (.of_sameFiles hsame)
    cases hdefault : q.shard.isDefault with
    | true =>
      rw [Server.setDb_default hdefault]
      refine ⟨fun hkey => ?_, fun _ => rfl, fun _ _ _ => rfl⟩
      exact absurd (shardDir_eq_iff.2 (.inl ⟨hdefault, hkey⟩)) (hspares q hrequest)
    | false =>
      rw [Server.setDb_other hdefault]
      refine ⟨fun _ => rfl, fun _ => rfl, fun hkey holder hpath => ?_⟩
      refine Function.update_of_ne ?_ ..
      rintro rfl
      exact shardPath_ne_of_shardDir_ne hdefault hkey (hspares q hrequest) hpath
  | restarted hrestarted _ _ _ => exact absurd hrestarted hlabel

/-! ### Runs -/

namespace Server.NoneFor

variable {rootDir : String} {key : ShardKey} {s s' : Server}

theorem congr (h : s.NoneFor rootDir key) (hflights : s'.flights = s.flights) :
    s'.NoneFor rootDir key := by
  intro i flight hi
  rw [hflights] at hi
  exact h i flight hi

theorem setFlight (h : s.NoneFor rootDir key) (i : ℕ) {q : Request} (phase : Phase)
    (hq : shardDir rootDir q.shard ≠ shardDir rootDir key) :
    (s.setFlight i ⟨q, phase⟩).NoneFor rootDir key := by
  intro j flight hj
  rcases eq_or_of_update_some hj with ⟨-, rfl⟩ | ⟨-, hold⟩
  · exact hq
  · exact h j flight hold

theorem clear (h : s.NoneFor rootDir key) (i : ℕ) : (s.clear i).NoneFor rootDir key :=
  fun j flight hj => h j flight (of_update_none hj).2

theorem answered (h : s.NoneFor rootDir key) (i : ℕ) {q : Request} (response : String)
    (hq : shardDir rootDir q.shard ≠ shardDir rootDir key) :
    (s.answered i q response).NoneFor rootDir key := by
  unfold Server.answered
  split_ifs
  · exact h.setFlight i _ hq
  · exact h.setFlight i _ hq
  · exact h.clear i

theorem step (h : s.NoneFor rootDir key) {label : Label} (hspares : label.Spares rootDir key)
    (hstep : Step P s label s') : s'.NoneFor rootDir key := by
  cases hstep with
  | arrive i q _ hactor =>
    refine setFlight (h.congr ?_) i _ (hspares q rfl)
    rcases Server.forActor_cases hactor with rfl | ⟨_, _, -, -, -, rfl⟩ <;> rfl
  | refuse i q _ _ => exact h
  | replay _ _ => exact h.clear _
  | miss _ _ => exact h.setFlight _ _ (hspares _ rfl)
  | execute _ _ _ => exact (h.congr (Server.setDb_flights ..)).answered _ _ (hspares _ rfl)
  | fail _ _ _ => exact (h.congr (Server.setDb_flights ..)).clear _
  | record _ _ _ _ => exact (h.congr (Server.setDb_flights ..)).setFlight _ _ (hspares _ rfl)
  | unrecord _ _ _ _ => exact (h.congr (Server.setDb_flights ..)).clear _
  | insert _ _ => exact NoneFor.clear (h.congr rfl) _
  | drop _ _ => exact h.clear _
  | restart _ _ hopen =>
    obtain ⟨_, -, -, -, -, -, hnone⟩ := openServerState_eq hopen
    intro i flight hi
    rw [hnone] at hi
    cases hi

end Server.NoneFor

/-- A handle without a request on its way is closed as it is. -/
theorem Halts.eq_disk {s : Server} {db : Db} {here : ShardKey → Prop} {disk : Disk}
    (h : Halts P s db here disk)
    (hnone : ∀ i flight, s.flights i = some flight → ¬ here flight.request.shard) :
    disk = db.disk := by
  cases h with
  | idle => rfl
  | inside _ _ hi hhere _ _ _ => exact absurd hhere (hnone _ _ hi)

section Restart

variable {rootDir : String} {key : ShardKey} {s s' : Server} {dirs : String → Option Disk}
  {disk : Disk}

/-- A restart between requests leaves the files of the data root as they are. -/
theorem root_disk_of_restart (hlocks : s.Locks P rootDir) (hnone : s.NoneFor rootDir key)
    (hkey : key.isDefault = true)
    (hroot : Halts P s s.root (fun key => key.isDefault = true) disk)
    (hopen : openServerState P disk dirs = .ok s') : s'.root.disk = s.root.disk := by
  have hdisk : disk = s.root.disk := hroot.eq_disk fun i flight hi hdefault =>
    hnone i flight hi (shardDir_eq_iff.2 (.inl ⟨hdefault, hkey⟩))
  obtain ⟨db, hdb, hroot', -, -, -, -⟩ := openServerState_eq hopen
  rw [hdisk] at hdb
  obtain ⟨entries, hsync⟩ := hlocks.root.synced
  obtain ⟨entries', hsync'⟩ := (hlocks.root.reopen hdb).synced
  exact (hsync'.open_disk hroot').trans (hsync.open_disk hdb)

/-- The directory of another shard after a restart between its requests. -/
theorem dirs_of_restart (hlocks : s.Locks P rootDir) (hnone : s.NoneFor rootDir key)
    (hkey : key.isDefault = false) (hdirs : Closes P s dirs) (closed : Disk) :
    dirs (shardPath rootDir key) = some closed ↔ s.Behind key closed := by
  obtain ⟨disk, hdisk, hcases⟩ := hdirs (shardPath rootDir key)
  rw [hdisk, Option.some.injEq]
  rcases hcases with hkept | ⟨holder, db, hdb, hpath, hhalts⟩
  · constructor
    · rintro rfl
      exact .closed hkey (by rw [hlocks.rootDir_eq]; exact hkept)
    · intro hbehind
      cases hbehind with
      | root hdefault =>
        rw [hdefault] at hkey
        cases hkey
      | closed _ hold =>
        rw [hlocks.rootDir_eq, hkept] at hold
        exact Option.some.inj hold
      | held _ hdb hpath =>
        have hheld := hlocks.held _ _ hdb
        rw [hlocks.rootDir_eq] at hpath
        rw [hpath, hkept] at hheld
        cases hheld
  · have heq : disk = db.disk := by
      refine hhalts.eq_disk fun i flight hi hhere => hnone i flight hi ?_
      rw [hlocks.rootDir_eq] at hpath
      rw [hhere]
      simp only [shardDir, hlocks.other holder db hdb, hkey, Bool.false_eq_true, if_false]
      exact hpath
    constructor
    · rintro rfl
      rw [heq]
      refine .held hkey hdb ?_
      rw [hlocks.rootDir_eq] at hpath ⊢
      exact hpath
    · intro hbehind
      rw [hlocks.rootDir_eq] at hpath
      cases hbehind with
      | root hdefault =>
        rw [hdefault] at hkey
        cases hkey
      | closed _ hold =>
        have hheld := hlocks.held holder db hdb
        rw [hlocks.rootDir_eq] at hold
        rw [hpath, hold] at hheld
        cases hheld
      | held _ hdb' hpath' =>
        rw [hlocks.rootDir_eq] at hpath'
        obtain rfl := hlocks.single _ _ _ _ hdb' hdb (hpath'.trans hpath.symm)
        rw [heq, Option.some.inj (hdb'.symm.trans hdb)]

theorem behind_of_restart (hlocks : s.Locks P rootDir) (hnone : s.NoneFor rootDir key)
    (hroot : Halts P s s.root (fun key => key.isDefault = true) disk) (hdirs : Closes P s dirs)
    (hopen : openServerState P disk dirs = .ok s') (closed : Disk) :
    s'.Behind key closed ↔ s.Behind key closed := by
  have hlocks' : s'.Locks P rootDir := .opened hopen fun db hdb => hlocks.halted hroot db hdb
  cases hkey : key.isDefault with
  | true =>
    have hdisk := root_disk_of_restart hlocks hnone hkey hroot hopen
    constructor
    · intro h
      cases h with
      | root _ => exact hdisk ▸ .root hkey
      | closed hother _ => exact absurd (hother.symm.trans hkey) Bool.false_ne_true
      | held hother _ _ => exact absurd (hother.symm.trans hkey) Bool.false_ne_true
    · intro h
      cases h with
      | root _ => exact hdisk ▸ .root hkey
      | closed hother _ => exact absurd (hother.symm.trans hkey) Bool.false_ne_true
      | held hother _ _ => exact absurd (hother.symm.trans hkey) Bool.false_ne_true
  | false =>
    rw [← dirs_of_restart hlocks hnone hkey hdirs closed]
    obtain ⟨_, -, -, hshards, hsame, -, -⟩ := openServerState_eq hopen
    constructor
    · intro h
      cases h with
      | root hdefault => exact absurd (hkey.symm.trans hdefault) Bool.false_ne_true
      | closed _ hclosed =>
        rw [hlocks'.rootDir_eq, hsame] at hclosed
        exact hclosed
      | held _ hdb _ =>
        rw [hshards] at hdb
        cases hdb
    · intro h
      refine .closed hkey ?_
      rw [hlocks'.rootDir_eq, hsame]
      exact h

end Restart

/-- **Runs without requests for the directory of a pair**, with restarts, leave the files behind the
pair as they are. -/
theorem behind_of_runs {rootDir : String} {key : ShardKey} {start s : Server} {trace : List Label}
    (hlocks : start.Locks P rootDir) (hnone : start.NoneFor rootDir key)
    (hruns : Runs (Step P) (fun _ label => label.Spares rootDir key) start trace s) (disk : Disk) :
    s.Behind key disk ↔ start.Behind key disk := by
  have hinvariant := hruns.invariant
    (I := fun _ s => s.Locks P rootDir ∧ s.NoneFor rootDir key ∧
      ∀ disk, s.Behind key disk ↔ start.Behind key disk)
    ⟨hlocks, hnone, fun _ => Iff.rfl⟩ ?_
  · exact hinvariant.2.2 disk
  · intro _ s label s' hspares hstep ⟨hlocks, hnone, hbehind⟩
    refine ⟨hlocks.step hstep, hnone.step hspares hstep, fun disk => ?_⟩
    rw [← hbehind disk]
    by_cases hlabel : label = .restarted
    · subst hlabel
      cases hstep with
      | restart hroot hdirs hopen => exact behind_of_restart hlocks hnone hroot hdirs hopen disk
    · exact (hstep.agree hlocks hspares hlabel).behind_iff hlocks (hlocks.step hstep) disk

/-- A server that was started on an empty data root and has taken some steps. -/
def Server.Started (P : ServerFormat) (rootDir : String) (s : Server) : Prop :=
  ∃ start trace, openServerState P (Disk.empty rootDir) (fun path => some (Disk.empty path)) =
      .ok start ∧ Runs (Step P) (fun _ _ => True) start trace s

theorem Server.Started.locks {rootDir : String} {s : Server} (h : s.Started P rootDir) :
    s.Locks P rootDir := by
  obtain ⟨start, trace, hopen, hruns⟩ := h
  exact Server.Locks.runs (.opened hopen fun db hdb => .opened hdb) hruns

/-- Two pairs are kept apart. -/
structure ShardsApart (P : ServerFormat) (a b : ShardKey) : Prop where
  /-- They are served from different directories. -/
  dirs : ∀ rootDir, shardDir rootDir a ≠ shardDir rootDir b
  /-- Those of other shards are below `shards`. -/
  below : ∀ rootDir, ∀ key ∈ [a, b], key.isDefault = false →
    ∃ database branch, ProperName database ∧ ProperName branch ∧
      pathComponents (shardDir rootDir key) = pathComponents rootDir ++ ["shards", database, branch]
  /-- No step of a request for one of them shows behind the other. -/
  unseen : ∀ rootDir s label s' q, s.Started P rootDir → Step P s label s' →
    label.request = some q → q.shard = a →
      s'.db b = s.db b ∧ ∀ disk, s'.Behind b disk ↔ s.Behind b disk
  /-- Nor does a run of such requests, whatever else goes on in other directories. -/
  lasting : ∀ rootDir s trace s', s.Started P rootDir → s.NoneFor rootDir b →
    Runs (Step P) (fun _ label => ∀ q, label.request = some q →
      q.shard = a ∨ shardDir rootDir q.shard ≠ shardDir rootDir b) s trace s' →
      ∀ disk, s'.Behind b disk ↔ s.Behind b disk

/-- **Two pairs are kept apart** unless they differ only by names with one component. -/
theorem shards_apart_iff (P : ServerFormat) (a b : ShardKey) :
    (a ≠ b → ¬ (a.isDefault = true ∧ b.isDefault = true) → ShardsApart P a b) ↔
      (SameShard a b → a = b) := by
  constructor
  · intro h hsame
    by_contra hne
    have hdefault : ¬ (a.isDefault = true ∧ b.isDefault = true) := by
      rw [hsame.left]
      exact fun hboth => Bool.false_ne_true hboth.1
    exact (h hne hdefault).dirs "" (shardDir_eq_iff.2 (.inr hsame))
  · intro h hne hdefault
    have hdirs : ∀ rootDir, shardDir rootDir a ≠ shardDir rootDir b := by
      intro rootDir heq
      rcases shardDir_eq_iff.1 heq with hboth | hsame
      · exact hdefault hboth
      · exact hne (h hsame)
    refine ⟨hdirs, ?_, ?_, ?_⟩
    · intro rootDir key _ hkey
      refine ⟨safeShardComponent key.databaseId, safeShardComponent key.branchId,
        properName_safeShardComponent _, properName_safeShardComponent _, ?_⟩
      rw [shardDir, hkey, if_neg Bool.false_ne_true, pathComponents_shardPath]
    · intro rootDir s label s' q hstarted hstep hrequest hshard
      have hspares : label.Spares rootDir b := by
        intro q' hrequest'
        obtain rfl := Option.some.inj (hrequest.symm.trans hrequest')
        rw [hshard]
        exact hdirs rootDir
      have hlabel : label ≠ .restarted := by
        rintro rfl
        cases hrequest
      have hagree := hstep.agree hstarted.locks hspares hlabel
      exact ⟨hagree.db_eq, hagree.behind_iff hstarted.locks (hstarted.locks.step hstep)⟩
    · intro rootDir s trace s' hstarted hnone hruns
      refine behind_of_runs hstarted.locks hnone (hruns.mono fun _ label hlabel q hrequest => ?_)
      rcases hlabel q hrequest with hshard | hother
      · rw [hshard]
        exact hdirs rootDir
      · exact hother

/-- Two databases with one directory: the name of one is that of the other with its slash
spelled. -/
theorem shards_share_directory :
    let a : ShardKey := ⟨"a/b", "main"⟩
    let b : ShardKey := ⟨"a_2fb", "main"⟩
    a ≠ b ∧ a.isDefault = false ∧ b.isDefault = false ∧ shardDir "data" a = shardDir "data" b := by
  decide +kernel

end TraceDB
