import TraceDB.Data.Paths

/-!
# Snapshots, backups and restores

`create_snapshot`, `backup` and `restore` copy a directory to a target that they remove first.  Each
checks the two paths before it does so, each in its own way.

* `CopyOp.Removes` : a target that is there is removed with files of the source in it.  None of the
  checks looks for a target above the source, and that of the snapshot does not look for one inside.
* `CopyOp.Overwrites` : a target that is not there as it is written, because its path goes through a
  missing directory and back.  Its absolute form may be the source all the same, or overlap it; the
  checks pass, the missing directory is made, and the files are copied over those of the source.
* `leavesSource_of_safe` : everything else leaves the files of the source alone, wherever it stops;
  and for a target that is there this is exact.
-/

namespace TraceDB

/-! ### Checks -/

/-- What the operations depend on. -/
structure CopyEnv where
  /-- The current directory. -/
  cwd : Location
  /-- `TRACEDB_ADMIN_SNAPSHOT_ROOT`, if it is set and not blank. -/
  adminSnapshotRoot : Option Path
  /-- The longest path that the file system takes, in names. -/
  maxDepth : ℕ
  /-- `TraceDb::open`. -/
  openDir : Location → FsM Unit
  /-- A database is opened with files in its directory. -/
  openDir_spares : ∀ l, FsM.Keeps (SparesFiles fun file => ∃ name rest, file = l ++ name :: rest)
    (openDir l)

namespace CopyEnv

variable (env : CopyEnv) (files : Files)

/-- `admin_snapshot_root`. -/
def adminRoot : Except FsError (Option Location) :=
  match env.adminSnapshotRoot with
  | none => .ok none
  | some root =>
    if !root.isAbsolute then
      .error (.refused "TRACEDB_ADMIN_SNAPSHOT_ROOT must be an absolute path")
    else (files.canonicalize env.cwd root).map some

/-- `resolve_existing_or_parent`. -/
def resolveExistingOrParent (path : Path) : Except FsError Location :=
  if files.hasPath env.cwd path then files.canonicalize env.cwd path
  else
    match path.parent with
    | none => .error (.refused s!"path {path.display} has no parent directory")
    | some parent =>
      match files.canonicalize env.cwd parent with
      | .error e => .error e
      | .ok canonicalParent =>
        match path.fileName with
        | none => .error (.refused s!"path {path.display} has no final component")
        | some name => .ok (canonicalParent ++ [name])

/-- `validate_admin_snapshot_path`. -/
def validateAdminSnapshotPath (label : String) (path : Path) : Except FsError Unit :=
  match env.adminRoot files with
  | .error e => .error e
  | .ok none => .ok ()
  | .ok (some root) =>
    match env.resolveExistingOrParent files path with
    | .error e => .error e
    | .ok resolved =>
      if root.isPrefixOf resolved then .ok ()
      else
        .error (.refused (s!"{label} must be under TRACEDB_ADMIN_SNAPSHOT_ROOT (" ++
          (Path.mk true (root.map .normal)).display ++ ")"))

/-- `validate_copy_paths`. -/
def validateCopyPaths (source target : Path) : Except FsError Unit :=
  match files.canonicalize env.cwd source with
  | .error e => .error e
  | .ok canonicalSource =>
    if files.hasPath env.cwd target then
      match files.canonicalize env.cwd target with
      | .error e => .error e
      | .ok canonicalTarget =>
        if canonicalSource = canonicalTarget then
          .error (.refused "source and target directories must differ")
        else if canonicalSource.isPrefixOf canonicalTarget then
          .error (.refused "target directory cannot be inside source directory")
        else .ok ()
    else
      match target.parent with
      | none => .ok ()
      | some parent =>
        let inside :=
          match files.canonicalize env.cwd parent with
          | .ok canonicalParent => canonicalSource.isPrefixOf canonicalParent
          | .error _ => parent.startsWith canonicalSource
        if inside then .error (.refused "target directory cannot be inside source directory")
        else .ok ()

/-- The checks of `snapshot_dir`. -/
def validateSnapshot (source target : Path) : Except FsError Unit :=
  match env.validateAdminSnapshotPath files "snapshot target" target with
  | .error e => .error e
  | .ok () =>
    match files.canonicalize env.cwd source with
    | .error e => .error e
    | .ok canonicalSource =>
      if files.hasPath env.cwd target then
        match files.canonicalize env.cwd target with
        | .error e => .error e
        | .ok canonicalTarget =>
          if canonicalTarget = canonicalSource then
            .error (.refused "source and target directories must differ")
          else .ok ()
      else .ok ()

/-- The checks of `restore_dir`. -/
def validateRestore (source target : Path) : Except FsError Unit :=
  match env.validateAdminSnapshotPath files "restore source" source with
  | .error e => .error e
  | .ok () =>
    match env.validateAdminSnapshotPath files "restore target" target with
    | .error e => .error e
    | .ok () => env.validateCopyPaths files source target

end CopyEnv

/-! ### Copying -/

section Copy

variable (cwd : Location)

/-- `copy_dir`, as far down as paths go. -/
def copyDir : ℕ → Path → Path → FsM Unit
  | 0, _, _ => FsM.fail .invalidFilename
  | depth + 1, source, target => do
    createDirAll cwd target
    let names ← FsM.look fun files =>
      match files.resolve cwd source with
      | .error e => .error e
      | .ok l =>
        match files.get l with
        | none => .error .notFound
        | some (.file _) => .error .notADirectory
        | some .dir => .ok (files.children l)
    names.forM fun name => do
      match ← FsM.look fun files => .ok (files.lookup cwd (source.join name)) with
      | some .dir => copyDir depth (source.join name) (target.join name)
      | _ => copyFile cwd (source.join name) (target.join name)

/-- The loop of `backup_dir` and `snapshot_dir`. -/
def copyEntries (depth : ℕ) (names : List String) (source target : Path) : FsM Unit :=
  names.forM fun name => do
    match ← FsM.look fun files => .ok (files.lookup cwd (source.join name)) with
    | some (.file _) => copyFile cwd (source.join name) (target.join name)
    | some .dir => copyDir cwd depth (source.join name) (target.join name)
    | none => pure ()

end Copy

/-- What `create_snapshot` copies. -/
def snapshotEntries : List String :=
  ["manifest.tdb", "engine.lock", "wal", "hot", "segments", "indexes", "checkpoints", "jobs"]

/-- What `backup` copies. -/
def backupEntries : List String :=
  ["manifest.tdb", "engine.lock", "wal", "hot", "segments", "indexes", "checkpoints", "snapshots",
    "jobs"]

/-- The removal of a target that is there. -/
def removeTarget (cwd : Location) (target : Path) (isThere : Bool) : FsM Unit :=
  if isThere then removeDirAll cwd target else pure ()

section Operations

variable (env : CopyEnv) (source target : Path)

/-- What the operations have in common: the checks, the removal of the target, and the copy. -/
def replaceDir (check : Files → Except FsError Unit) (copy : FsM Unit) : FsM Unit := do
  FsM.look check
  let isThere ← FsM.look fun files => .ok (files.hasPath env.cwd target)
  removeTarget env.cwd target isThere
  copy

/-- `backup_dir`. -/
def backupDir : FsM Unit :=
  replaceDir env target (fun files => env.validateCopyPaths files source target) do
    createDirAll env.cwd target
    copyEntries env.cwd env.maxDepth backupEntries source target

/-- `snapshot_dir`. -/
def snapshotDir : FsM Unit :=
  replaceDir env target (fun files => env.validateSnapshot files source target) do
    createDirAll env.cwd target
    copyEntries env.cwd env.maxDepth snapshotEntries source target

/-- `restore_dir`. -/
def restoreDir : FsM Unit :=
  replaceDir env target (fun files => env.validateRestore files source target)
    (copyDir env.cwd env.maxDepth source target)

end Operations

/-- The operations that copy a directory. -/
inductive CopyOp where
  | createSnapshot
  | backup
  | restore
  deriving DecidableEq

/-- `TraceDb::create_snapshot`, `TraceDb::backup`, and `TraceDb::restore` (also called
`restore_snapshot`).  Once the copy is made the target leads to its absolute form. -/
def CopyOp.run (op : CopyOp) (env : CopyEnv) (source target : Path) : FsM Unit :=
  match op with
  | .createSnapshot => snapshotDir env source target
  | .backup => backupDir env source target
  | .restore => do
    restoreDir env source target
    env.openDir (target.location env.cwd)

/-! ### What the copy spares -/

/-- Where a copy of some entries writes: what is a file in the source, at the same place in the
target; and, where the target is in the source, what it has written there itself. -/
inductive Fed (files : Files) (entries : List String) (source target : Location) : Location → Prop
  | file {name : String} {rest : List String} : name ∈ entries →
      files.IsFile (source ++ name :: rest) →
      Fed files entries source target (target ++ name :: rest)
  | again {name : String} {rest : List String} : name ∈ entries →
      Fed files entries source target (source ++ name :: rest) →
      Fed files entries source target (target ++ name :: rest)

section Spares

variable {cwd : Location} {written : Location → Prop} {start : Files}

theorem copyDir_spares (depth : ℕ) {source target : Path}
    (h : ∀ name rest, start.IsFile (source.location cwd ++ name :: rest) ∨
      written (source.location cwd ++ name :: rest) →
      written (target.location cwd ++ name :: rest)) :
    FsM.Keeps (SparesFrom written start) (copyDir cwd depth source target) := by
  induction depth generalizing source target with
  | zero => exact .fail _
  | succ depth ih =>
    refine SparesFrom.bind (.of_spares (createDirAll_spares target)) fun _ =>
      SparesFrom.bind (.look _) fun names => SparesFrom.forM fun name _ =>
        SparesFrom.bind (.look _) fun found => ?_
    split
    · refine ih fun name' rest hfrom => ?_
      rw [Path.location_join, List.append_assoc] at hfrom ⊢
      exact h name (name' :: rest) hfrom
    · refine copyFile_spares fun hfrom => ?_
      rw [Path.location_join] at hfrom ⊢
      exact h name [] hfrom

theorem copyEntries_spares (depth : ℕ) {names : List String} {source target : Path}
    (h : ∀ name ∈ names, ∀ rest, start.IsFile (source.location cwd ++ name :: rest) ∨
      written (source.location cwd ++ name :: rest) →
      written (target.location cwd ++ name :: rest)) :
    FsM.Keeps (SparesFrom written start) (copyEntries cwd depth names source target) := by
  refine SparesFrom.forM fun name hname => SparesFrom.bind (.look _) fun found => ?_
  split
  · refine copyFile_spares fun hfrom => ?_
    rw [Path.location_join] at hfrom ⊢
    exact h name hname [] hfrom
  · refine copyDir_spares depth fun name' rest hfrom => ?_
    rw [Path.location_join, List.append_assoc] at hfrom ⊢
    exact h name hname (name' :: rest) hfrom
  · exact .pure _

end Spares

section Replace

variable {env : CopyEnv} {target : Path} {check : Files → Except FsError Unit} {copy : FsM Unit}
  {files : Files}

/-- A rejected call changes nothing. -/
theorem replaceDir_rejected {e : FsError} (h : check files = .error e) (budget : ℕ) :
    replaceDir env target check copy ⟨files, budget⟩ = (.error e, ⟨files, budget⟩) := by
  simp only [replaceDir, Bind.bind, FsM.look, h]

/-- Nor does one whose target is a file. -/
theorem replaceDir_file (hthere : files.hasPath env.cwd target = true) {bytes : Bytes}
    (h : files.get (target.location env.cwd) = some (.file bytes)) (budget : ℕ) :
    ∃ e, replaceDir env target check copy ⟨files, budget⟩ = (.error e, ⟨files, budget⟩) := by
  cases hcheck : check files with
  | error e => exact ⟨e, replaceDir_rejected hcheck budget⟩
  | ok =>
    refine ⟨.notADirectory, ?_⟩
    simp only [replaceDir, Bind.bind, FsM.look, hcheck, hthere, removeTarget, if_true,
      removeDirAll_file hthere h]

/-- An accepted call with a directory as its target can stop when the files there are gone. -/
theorem replaceDir_stops (hthere : files.hasPath env.cwd target = true)
    (hcheck : check files = .ok ()) (h : files.get (target.location env.cwd) = some .dir) :
    replaceDir env target check copy
        ⟨files, (files.filesBelow (target.location env.cwd)).length⟩ =
      (.error .io, ⟨(files.filesBelow (target.location env.cwd)).foldl Files.erase files, 0⟩) := by
  simp only [replaceDir, Bind.bind, FsM.look, hcheck, hthere, removeTarget, if_true,
    removeDirAll_stops hthere h]

/-- One whose target is there writes below the target, where it has removed what was there. -/
theorem replaceDir_below
    (hcopy : FsM.Keeps (SparesFrom (target.location env.cwd <+: ·) files) copy) :
    FsM.Keeps (SparesFrom (target.location env.cwd <+: ·) files)
      (replaceDir env target check copy) := by
  refine SparesFrom.bind (.look _) fun _ => SparesFrom.bind (.look _) fun isThere =>
    SparesFrom.bind ?_ fun _ => hcopy
  cases isThere with
  | false => exact .pure _
  | true => exact .of_spares (removeDirAll_spares fun _ hbelow => hbelow)

/-- One whose target is not there copies only. -/
theorem replaceDir_missing {written : Location → Prop}
    (hmissing : files.hasPath env.cwd target = false)
    (hcopy : FsM.Keeps (SparesFrom written files) copy) (budget : ℕ) :
    SparesFiles written files (replaceDir env target check copy ⟨files, budget⟩).2.files := by
  cases hcheck : check files with
  | error e =>
    rw [replaceDir_rejected hcheck]
    exact .refl _
  | ok =>
    have hrun : replaceDir env target check copy ⟨files, budget⟩ = copy ⟨files, budget⟩ := by
      simp only [replaceDir, Bind.bind, FsM.look, hcheck, hmissing]
      rfl
    rw [hrun]
    exact hcopy ⟨files, budget⟩ (.refl _)

end Replace

/-- The entries that two of the operations copy, into a target that is made first. -/
theorem makeCopy_spares {cwd : Location} {written : Location → Prop} {start : Files} (depth : ℕ)
    {names : List String} {source target : Path}
    (h : ∀ name ∈ names, ∀ rest, start.IsFile (source.location cwd ++ name :: rest) ∨
      written (source.location cwd ++ name :: rest) →
      written (target.location cwd ++ name :: rest)) :
    FsM.Keeps (SparesFrom written start) (do
      createDirAll cwd target
      copyEntries cwd depth names source target) :=
  SparesFrom.bind (.of_spares (createDirAll_spares target)) fun _ => copyEntries_spares depth h

namespace CopyOp

/-- The checks of an operation. -/
def validate (op : CopyOp) (env : CopyEnv) (files : Files) (source target : Path) :
    Except FsError Unit :=
  match op with
  | .createSnapshot => env.validateSnapshot files source target
  | .backup => env.validateCopyPaths files source target
  | .restore => env.validateRestore files source target

/-- Where an operation writes.  A restore opens its target, and may write anything there. -/
def Writes (op : CopyOp) (env : CopyEnv) (files : Files) (source target : Path) : Location → Prop :=
  match op with
  | .createSnapshot =>
    Fed files snapshotEntries (source.location env.cwd) (target.location env.cwd)
  | .backup => Fed files backupEntries (source.location env.cwd) (target.location env.cwd)
  | .restore => fun l => ∃ name rest, l = target.location env.cwd ++ name :: rest

section Run

variable {op : CopyOp} {env : CopyEnv} {source target : Path} {files : Files}

theorem run_rejected {e : FsError} (h : op.validate env files source target = .error e)
    (budget : ℕ) :
    op.run env source target ⟨files, budget⟩ = (.error e, ⟨files, budget⟩) := by
  cases op with
  | createSnapshot =>
    have heq : snapshotDir env source target ⟨files, budget⟩ = (.error e, ⟨files, budget⟩) :=
      replaceDir_rejected h budget
    exact heq
  | backup =>
    have heq : backupDir env source target ⟨files, budget⟩ = (.error e, ⟨files, budget⟩) :=
      replaceDir_rejected h budget
    exact heq
  | restore =>
    have hreplace : restoreDir env source target ⟨files, budget⟩ = (.error e, ⟨files, budget⟩) :=
      replaceDir_rejected h budget
    simp only [run, Bind.bind, hreplace]

theorem run_file (hthere : files.hasPath env.cwd target = true) {bytes : Bytes}
    (h : files.get (target.location env.cwd) = some (.file bytes)) (budget : ℕ) :
    (op.run env source target ⟨files, budget⟩).2.files = files := by
  have hreplace : ∀ check copy, ∃ e, replaceDir env target check copy ⟨files, budget⟩ =
      (.error e, ⟨files, budget⟩) := fun check copy => replaceDir_file hthere h budget
  cases op with
  | createSnapshot =>
    obtain ⟨e, heq⟩ := hreplace _ _
    exact congrArg (fun r => r.2.files) heq
  | backup =>
    obtain ⟨e, heq⟩ := hreplace _ _
    exact congrArg (fun r => r.2.files) heq
  | restore =>
    obtain ⟨e, heq⟩ := hreplace (fun files => env.validateRestore files source target)
      (copyDir env.cwd env.maxDepth source target)
    have heq : restoreDir env source target ⟨files, budget⟩ = (.error e, ⟨files, budget⟩) := heq
    simp only [run, Bind.bind, heq]

theorem run_stops (hthere : files.hasPath env.cwd target = true)
    (hcheck : op.validate env files source target = .ok ())
    (h : files.get (target.location env.cwd) = some .dir) :
    (op.run env source target
        ⟨files, (files.filesBelow (target.location env.cwd)).length⟩).2.files =
      (files.filesBelow (target.location env.cwd)).foldl Files.erase files := by
  cases op with
  | createSnapshot =>
    have heq : snapshotDir env source target _ = _ := replaceDir_stops hthere hcheck h
    exact congrArg (fun r => r.2.files) heq
  | backup =>
    have heq : backupDir env source target _ = _ := replaceDir_stops hthere hcheck h
    exact congrArg (fun r => r.2.files) heq
  | restore =>
    have heq : restoreDir env source target _ = _ := replaceDir_stops hthere hcheck h
    simp only [run, Bind.bind, heq]

/-- What an operation does stays below its target. -/
theorem run_below (op : CopyOp) (env : CopyEnv) (source target : Path) (files : Files) :
    FsM.Keeps (SparesFrom (target.location env.cwd <+: ·) files) (op.run env source target) := by
  have hbelow : ∀ rest : List String, target.location env.cwd <+: target.location env.cwd ++ rest :=
    fun rest => List.prefix_append _ _
  cases op with
  | createSnapshot => exact replaceDir_below (makeCopy_spares _ fun _ _ _ _ => hbelow _)
  | backup => exact replaceDir_below (makeCopy_spares _ fun _ _ _ _ => hbelow _)
  | restore =>
    refine SparesFrom.bind (replaceDir_below (copyDir_spares _ fun _ _ _ => hbelow _))
      fun _ s hs => ?_
    refine SparesFiles.trans _ _ _ hs ((env.openDir_spares _ s).mono ?_)
    rintro l ⟨name, rest, rfl⟩
    exact hbelow _

/-- An operation whose target is not there writes where its copy does. -/
theorem run_missing (hmissing : files.hasPath env.cwd target = false) (budget : ℕ) :
    SparesFiles (op.Writes env files source target) files
      (op.run env source target ⟨files, budget⟩).2.files := by
  cases op with
  | createSnapshot =>
    refine replaceDir_missing hmissing (makeCopy_spares _ fun name hname rest hfrom => ?_) budget
    exact hfrom.elim (.file hname) (.again hname)
  | backup =>
    refine replaceDir_missing hmissing (makeCopy_spares _ fun name hname rest hfrom => ?_) budget
    exact hfrom.elim (.file hname) (.again hname)
  | restore =>
    have hcopy : FsM.Keeps
        (SparesFrom (fun l => ∃ name rest, l = target.location env.cwd ++ name :: rest) files)
        (copyDir env.cwd env.maxDepth source target) :=
      copyDir_spares _ fun name rest _ => ⟨name, rest, rfl⟩
    exact SparesFiles.run_bind (replaceDir_missing hmissing hcopy budget)
      fun _ => env.openDir_spares _

end Run

/-! ### The files of the source -/

/-- The files of the source are as they were, wherever the operation stops. -/
def LeavesSource (op : CopyOp) (env : CopyEnv) (tree : FileTree) (source target : FilePath) :
    Prop :=
  ∀ budget l bytes, source.location env.cwd <+: l → tree.get l = some (.file bytes) →
    (op.run env source.toPath target.toPath ⟨tree.toFiles, budget⟩).2.files.get l =
      some (.file bytes)

/-- What the checks ask of a source and a target that are there. -/
def Passes (op : CopyOp) (env : CopyEnv) (tree : FileTree) (source target : FilePath) : Prop :=
  match op with
  | .createSnapshot => target.location env.cwd ≠ source.location env.cwd ∧
      env.validateAdminSnapshotPath tree.toFiles "snapshot target" target.toPath = .ok ()
  | .backup => ¬ source.location env.cwd <+: target.location env.cwd
  | .restore => ¬ source.location env.cwd <+: target.location env.cwd ∧
      env.validateAdminSnapshotPath tree.toFiles "restore source" source.toPath = .ok () ∧
      env.validateAdminSnapshotPath tree.toFiles "restore target" target.toPath = .ok ()

/-- Both paths are there, the target is a directory with a file of the source in it, and no check
looks for that. -/
structure Removes (op : CopyOp) (env : CopyEnv) (tree : FileTree) (source target : FilePath) :
    Prop where
  source_there : tree.hasPath env.cwd source.toPath = true
  target_there : tree.hasPath env.cwd target.toPath = true
  dir : tree.get (target.location env.cwd) = some .dir
  overlap : ∃ l bytes, source.location env.cwd <+: l ∧ target.location env.cwd <+: l ∧
    tree.get l = some (.file bytes)
  passes : op.Passes env tree source target

/-- The path of the target leads nowhere, the checks pass, and the operation writes where a file of
the source is. -/
structure Overwrites (op : CopyOp) (env : CopyEnv) (tree : FileTree) (source target : FilePath) :
    Prop where
  missing : tree.hasPath env.cwd target.toPath = false
  passes : op.validate env tree.toFiles source.toPath target.toPath = .ok ()
  overlap : ∃ l, source.location env.cwd <+: l ∧ tree.IsFile l ∧
    op.Writes env tree.toFiles source.toPath target.toPath l

/-- The checks on a source and a target that is a directory. -/
theorem validate_existing_iff {op : CopyOp} {env : CopyEnv} {tree : FileTree}
    {source target : FilePath} (hsource : tree.hasPath env.cwd source.toPath = true)
    (htarget : tree.hasPath env.cwd target.toPath = true) :
    op.validate env tree.toFiles source.toPath target.toPath = .ok () ↔
      op.Passes env tree source target := by
  obtain ⟨-, hcanonSource⟩ := Files.canonicalize_of_hasPath hsource
  obtain ⟨-, hcanonTarget⟩ := Files.canonicalize_of_hasPath htarget
  have hcopy : env.validateCopyPaths tree.toFiles source.toPath target.toPath = .ok () ↔
      ¬ source.location env.cwd <+: target.location env.cwd := by
    simp only [CopyEnv.validateCopyPaths, hcanonSource, htarget, if_true, hcanonTarget,
      List.isPrefixOf_iff_prefix]
    split_ifs with hsame hinside
    · simp [hsame]
    · simp [hinside]
    · simp [hinside]
  cases op with
  | createSnapshot =>
    simp only [validate, Passes, CopyEnv.validateSnapshot, hcanonSource, htarget,
      if_true, hcanonTarget]
    rcases env.validateAdminSnapshotPath tree.toFiles "snapshot target" target.toPath with e | _
    · simp
    · simp only
      split_ifs with hsame
      · simp [hsame]
      · simp [hsame]
  | backup => exact hcopy
  | restore =>
    simp only [validate, Passes, CopyEnv.validateRestore]
    rcases env.validateAdminSnapshotPath tree.toFiles "restore source" source.toPath with e | _
    · simp
    · rcases env.validateAdminSnapshotPath tree.toFiles "restore target" target.toPath with e | _
      · simp
      · simp only [hcopy, and_true]

/-- A source that is not there is rejected. -/
theorem source_there_of_validate {op : CopyOp} {env : CopyEnv} {files : Files}
    {source target : Path} (h : op.validate env files source target = .ok ()) :
      files.hasPath env.cwd source = true := by
  have hcanonical : ∃ l, files.canonicalize env.cwd source = .ok l := by
    cases hsource : files.canonicalize env.cwd source with
    | ok l => exact ⟨l, rfl⟩
    | error e =>
      have hcopy : env.validateCopyPaths files source target = .error e := by
        rw [CopyEnv.validateCopyPaths, hsource]
      cases op with
      | createSnapshot =>
        rw [validate, CopyEnv.validateSnapshot, hsource] at h
        split at h <;> cases h
      | backup =>
        rw [validate, hcopy] at h
        cases h
      | restore =>
        rw [validate, CopyEnv.validateRestore, hcopy] at h
        split at h
        · cases h
        · split at h <;> cases h
  obtain ⟨l, hl⟩ := hcanonical
  exact Files.hasPath_of_canonicalize hl

/-- A target with files of the source in it is removed with them. -/
theorem Removes.not_leaves {op : CopyOp} {env : CopyEnv} {tree : FileTree}
    {source target : FilePath} (h : op.Removes env tree source target) :
      ¬ op.LeavesSource env tree source target := by
  intro hleaves
  obtain ⟨l, bytes, hsource, htarget, hfile⟩ := h.overlap
  have hvalid := (validate_existing_iff h.source_there h.target_there).2 h.passes
  -- The removal of the target has taken the file away when it stops.
  have hkept := hleaves (tree.filesBelow (target.location env.cwd)).length l bytes hsource hfile
  rw [run_stops h.target_there hvalid h.dir,
    Files.get_foldl_erase (Files.ne_nil_of_get hfile) (Files.mem_filesBelow hfile htarget)] at hkept
  cases hkept

/-- An operation that neither removes nor overwrites files of its source leaves them alone. -/
theorem leavesSource {op : CopyOp} {env : CopyEnv} {tree : FileTree} {source target : FilePath}
    (hremoves : ¬ op.Removes env tree source target)
    (hoverwrites : ¬ op.Overwrites env tree source target) :
    op.LeavesSource env tree source target := by
  intro budget l bytes hsource hfile
  cases hvalid : op.validate env tree.toFiles source.toPath target.toPath with
  | error e =>
    rw [run_rejected hvalid]
    exact hfile
  | ok =>
    cases hthere : tree.hasPath env.cwd target.toPath with
    | false =>
      refine (run_missing hthere budget).kept l bytes (fun hwrites => ?_) hfile
      exact hoverwrites ⟨hthere, hvalid, l, hsource, ⟨bytes, hfile⟩, hwrites⟩
    | true =>
      by_cases htarget : target.location env.cwd <+: l
      · have hsource_there := source_there_of_validate hvalid
        have hpasses := (validate_existing_iff hsource_there hthere).1 hvalid
        have hsome : tree.lookup env.cwd target.toPath ≠ none := Option.isSome_iff_ne_none.1 hthere
        rw [Files.lookup_of_hasPath hthere] at hsome
        rcases hget : tree.get (target.location env.cwd) with _ | _ | content
        · exact absurd hget hsome
        · exact absurd ⟨hsource_there, hthere, hget, ⟨l, bytes, hsource, htarget, hfile⟩, hpasses⟩
            hremoves
        · rw [run_file hthere hget]
          exact hfile
      · exact (op.run_below env source.toPath target.toPath tree.toFiles _ (.refl _)).kept
          l bytes htarget
          hfile

/-- **When an operation leaves the files of its source alone.**  It does, wherever it stops, unless
it removes them with its target or writes over them behind a target that is not there; and for a
target that is there, only then. -/
theorem leavesSource_of_safe (op : CopyOp) (env : CopyEnv) (tree : FileTree)
    (source target : FilePath) :
    (¬ op.Removes env tree source target ∧ ¬ op.Overwrites env tree source target →
        op.LeavesSource env tree source target) ∧
      (tree.hasPath env.cwd target.toPath = true →
        (op.LeavesSource env tree source target ↔ ¬ op.Removes env tree source target)) := by
  refine ⟨fun ⟨hremoves, hoverwrites⟩ => leavesSource hremoves hoverwrites, fun hthere => ⟨?_, ?_⟩⟩
  · exact fun hleaves hremoves => hremoves.not_leaves hleaves
  · intro hremoves
    refine leavesSource hremoves fun hoverwrites => ?_
    have hmissing := hoverwrites.missing
    rw [hthere] at hmissing
    cases hmissing

end CopyOp

/-- A directory with a database and its log. -/
def copiedFiles : Files where
  entries := [(["srv"], .dir), (["srv", "db"], .dir), (["srv", "db", "manifest.tdb"], .file [1]),
    (["srv", "db", "wal"], .dir), (["srv", "db", "wal", "000001.twal"], .file [2])]

def copiedTree : FileTree where
  toFiles := copiedFiles
  closed l entry h above habove hne := by
    have hall : ∀ found ∈ copiedFiles.entries, ∀ above ∈ found.1.inits, above ≠ found.1 →
        copiedFiles.get above = some .dir := by
      decide +kernel
    have hroot : l ≠ [] := by
      rintro rfl
      exact hne (List.prefix_nil.1 habove)
    exact hall _ (Files.mem_entries_of_get hroot h) above ((List.mem_inits above l).2 habove) hne

/-- An environment with nothing but a current directory. -/
def copyEnv : CopyEnv := ⟨["srv"], none, 8, fun _ => pure (), fun _ _ => .refl _⟩

/-- A backup beside the database, to a directory that is not there. -/
theorem CopyOp.leavesSource_beside :
    CopyOp.backup.LeavesSource copyEnv copiedTree ⟨⟨true, [.normal "srv", .normal "db"]⟩, rfl⟩
        ⟨⟨false, [.normal "copy"]⟩, rfl⟩ ∧
      CopyOp.backup.LeavesSource copyEnv copiedTree ⟨⟨true, [.normal "srv", .normal "db"]⟩, rfl⟩
        ⟨⟨true, [.normal "srv", .normal "db"]⟩, rfl⟩ := by
  have hsafe := leavesSource_of_safe .backup copyEnv copiedTree
    ⟨⟨true, [.normal "srv", .normal "db"]⟩, rfl⟩ ⟨⟨false, [.normal "copy"]⟩, rfl⟩
  have hself := leavesSource_of_safe .backup copyEnv copiedTree
    ⟨⟨true, [.normal "srv", .normal "db"]⟩, rfl⟩ ⟨⟨true, [.normal "srv", .normal "db"]⟩, rfl⟩
  refine ⟨hsafe.1 ⟨fun hremoves => ?_, fun hoverwrites => ?_⟩, (hself.2 (by decide +kernel)).2 ?_⟩
  · have hthere := hremoves.target_there
    revert hthere
    decide +kernel
  · obtain ⟨l, hsource, -, hwrites⟩ := hoverwrites.overlap
    have hbelow : ["srv", "copy"] <+: l := by
      cases hwrites with
      | file | again => exact List.prefix_append _ _
    have hprefix : ["srv", "db"] <+: l := hsource
    have hsame := List.prefix_of_prefix_length_le hbelow hprefix (le_refl _)
    revert hsame
    decide
  · exact fun hremoves => hremoves.passes (List.prefix_refl _)

/-- A backup to the directory above the database succeeds and removes the database; a snapshot to
the directory of the log removes the log; a backup to the database itself, behind a missing
directory, succeeds and leaves empty files. -/
theorem copies_remove_source :
    let db : Path := ⟨true, [.normal "srv", .normal "db"]⟩
    let above : Path := ⟨true, [.normal "srv"]⟩
    let log : Path := ⟨false, [.normal "db", .normal "wal"]⟩
    let behind : Path := ⟨true, [.normal "srv", .normal "missing", .parentDir, .normal "db"]⟩
    let backedUp := CopyOp.backup.run copyEnv db above ⟨copiedTree.toFiles, 100⟩
    let snapshot := CopyOp.createSnapshot.run copyEnv db log ⟨copiedTree.toFiles, 100⟩
    let emptied := CopyOp.backup.run copyEnv db behind ⟨copiedTree.toFiles, 100⟩
    copiedTree.get ["srv", "db", "manifest.tdb"] = some (.file [1]) ∧
      copiedTree.get ["srv", "db", "wal", "000001.twal"] = some (.file [2]) ∧
      (backedUp.1 = .ok () ∧ backedUp.2.files.get ["srv", "db", "manifest.tdb"] = none) ∧
      snapshot.2.files.get ["srv", "db", "wal", "000001.twal"] = none ∧
      emptied.1 = .ok () ∧ emptied.2.files.get ["srv", "db", "manifest.tdb"] = some (.file []) ∧
      emptied.2.files.get ["srv", "db", "wal", "000001.twal"] = some (.file []) := by
  decide +kernel

end TraceDB
