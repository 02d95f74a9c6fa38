import TraceDB.Data.Files

/-!
# Paths

A path is followed one component after the other, and each component starts from a directory that is
there.  So `a/missing/../b` leads nowhere although its absolute form `a/b` may well be there, and it
leads to `a/b` as soon as the missing directory has been made.

* `Files.resolve` : where a path leads.
* `Path.location` : its absolute form, which is where it leads when it leads anywhere
  (`Files.resolve_location`).
* `createDirAll`, `removeDirAll`, `copyFile` : the operations of the file system, which follow their
  paths each time.

A path is taken as the components that `Path::components` yields, so that repeated separators and
inner `.` are left out; symbolic links are left out too.
-/

namespace TraceDB

/-- `path::Component`, but for the root. -/
inductive Component where
  | curDir
  | parentDir
  | normal (name : String)
  deriving DecidableEq

/-- Where a component leads from a directory. -/
def Component.follow (l : Location) : Component → Location
  | .curDir => l
  | .parentDir => l.dropLast
  | .normal name => l ++ [name]

/-- A path, by its components. -/
structure Path where
  isAbsolute : Bool
  components : List Component
  deriving DecidableEq

namespace Path

variable (path : Path)

/-- The path with no text. -/
def isEmpty : Bool := !path.isAbsolute && path.components.isEmpty

/-- Where a path starts. -/
def start (cwd : Location) : Location := if path.isAbsolute then [] else cwd

/-- The absolute form of a path, from the current directory. -/
def location (cwd : Location) : Location := path.components.foldl Component.follow (path.start cwd)

/-- `Path::join`, with a name. -/
def join (name : String) : Path := { path with components := path.components ++ [.normal name] }

/-- `Path::parent`. -/
def parent : Option Path :=
  if path.components = [] then none else some { path with components := path.components.dropLast }

/-- `Path::file_name`. -/
def fileName : Option String :=
  match path.components.getLast? with
  | some (.normal name) => some name
  | _ => none

/-- `Path::starts_with`, for an absolute path. -/
def startsWith (base : Location) : Bool :=
  path.isAbsolute && (base.map Component.normal).isPrefixOf path.components

/-- `Path::display`. -/
def display : String :=
  (if path.isAbsolute then "/" else "") ++ "/".intercalate (path.components.map fun component =>
    match component with
    | .curDir => "."
    | .parentDir => ".."
    | .normal name => name)

@[simp] theorem location_join (cwd : Location) (name : String) :
    (path.join name).location cwd = path.location cwd ++ [name] := by
  rw [location, join, List.foldl_append]
  rfl

end Path

/-- A path that names something. -/
structure FilePath extends Path where
  ne_empty : toPath.isEmpty = false

namespace Files

variable (files : Files) (cwd : Location) (path : Path)

/-- Follows components from a location. -/
def walk : Location → List Component → Except FsError Location
  | l, [] => .ok l
  | l, component :: rest =>
    match files.get l with
    | none => .error .notFound
    | some (.file _) => .error .notADirectory
    | some .dir => walk (component.follow l) rest

/-- Where a path leads; nothing need be there. -/
def resolve : Except FsError Location :=
  if path.isEmpty then .error .notFound else files.walk (path.start cwd) path.components

/-- What a path leads to. -/
def lookup : Option FileEntry :=
  match files.resolve cwd path with
  | .ok l => files.get l
  | .error _ => none

/-- `Path::exists`. -/
def hasPath : Bool := (files.lookup cwd path).isSome

/-- `Path::canonicalize`. -/
def canonicalize : Except FsError Location :=
  match files.resolve cwd path with
  | .ok l => if (files.get l).isSome then .ok l else .error .notFound
  | .error e => .error e

variable {files cwd path}

theorem walk_location {components : List Component} {l l' : Location}
    (h : files.walk l components = .ok l') : l' = components.foldl Component.follow l := by
  induction components generalizing l with
  | nil => exact (Except.ok.inj h).symm
  | cons component rest ih =>
    rw [walk] at h
    split at h
    · cases h
    · cases h
    · exact ih h

/-- **A path that leads anywhere leads to its absolute form.** -/
theorem resolve_location {l : Location} (h : files.resolve cwd path = .ok l) :
    l = path.location cwd := by
  rw [resolve] at h
  split_ifs at h
  exact walk_location h

/-- A path to something is its absolute form. -/
theorem canonicalize_of_hasPath (h : files.hasPath cwd path = true) :
    files.resolve cwd path = .ok (path.location cwd) ∧
      files.canonicalize cwd path = .ok (path.location cwd) := by
  rw [hasPath, lookup] at h
  cases hresolve : files.resolve cwd path with
  | error e =>
    rw [hresolve] at h
    cases h
  | ok l =>
    rw [hresolve] at h
    obtain rfl := resolve_location hresolve
    exact ⟨rfl, by rw [canonicalize, hresolve]; exact if_pos h⟩

theorem hasPath_of_canonicalize {l : Location} (h : files.canonicalize cwd path = .ok l) :
    files.hasPath cwd path = true := by
  rw [canonicalize] at h
  rw [hasPath, lookup]
  split at h
  · split_ifs at h with hsome
    exact hsome
  · cases h

theorem lookup_of_hasPath (h : files.hasPath cwd path = true) :
    files.lookup cwd path = files.get (path.location cwd) := by
  rw [lookup, (canonicalize_of_hasPath h).1]

end Files

/-! ### Operations -/

section Operations

variable (cwd : Location)

/-- Makes a directory, unless it is there. -/
def createDir (path : Path) : FsM Unit := do
  let l ← FsM.look fun files => files.resolve cwd path
  match ← FsM.look fun files => .ok (files.get l) with
  | some .dir => pure ()
  | some (.file _) => FsM.fail .notADirectory
  | none => FsM.change (·.set l .dir)

/-- `fs::create_dir_all`: the directories of the path, from the first component on. -/
def createDirAll (path : Path) : FsM Unit :=
  path.components.inits.forM fun components =>
    let above : Path := { path with components := components }
    if above.isEmpty then pure () else createDir cwd above

/-- `fs::remove_dir_all`.  The directories, which are empty once the files are gone, go last. -/
def removeDirAll (path : Path) : FsM Unit := do
  let l ← FsM.look fun files => files.resolve cwd path
  match ← FsM.look fun files => .ok (files.get l) with
  | none => FsM.fail .notFound
  | some (.file _) => FsM.fail .notADirectory
  | some .dir =>
    let gone ← FsM.look fun files => .ok (files.filesBelow l)
    gone.forM fun file => FsM.change (·.erase file)
    FsM.change (·.eraseBelow l)

/-- `fs::copy`: the target is emptied before the source is read. -/
def copyFile (source target : Path) : FsM Unit := do
  let opened ← FsM.look fun files =>
    match files.resolve cwd source with
    | .error e => .error e
    | .ok l =>
      match files.get l with
      | none => .error .notFound
      | some .dir => .error .invalidInput
      | some (.file _) => .ok l
  let made ← FsM.look fun files => files.resolve cwd target
  match ← FsM.look fun files => .ok (files.get made) with
  | some .dir => FsM.fail .isADirectory
  | _ =>
    FsM.change (·.set made (.file []))
    match ← FsM.look fun files => .ok (files.get opened) with
    | some (.file bytes) => FsM.change (·.set made (.file bytes))
    | _ => FsM.fail .notFound

variable {cwd} {written : Location → Prop}

theorem createDir_spares (path : Path) : FsM.Keeps (SparesFiles written) (createDir cwd path) := by
  refine FsM.keeps_look_bind SparesFiles.refl fun s l _ =>
    FsM.keeps_look_bind SparesFiles.refl (fun s found hfound => ?_) s
  rcases found with _ | _ | bytes
  · -- The one case with a change.
    show SparesFiles written s.files (FsM.change (·.set l .dir) s).2.files
    unfold FsM.change
    split
    · exact SparesFiles.refl _
    · exact SparesFiles.setDir (Except.ok.inj hfound)
  · exact SparesFiles.refl _
  · exact SparesFiles.refl _

/-- Directories are made where nothing was, so this spares all files. -/
theorem createDirAll_spares (path : Path) :
    FsM.Keeps (SparesFiles written) (createDirAll cwd path) := by
  refine FsM.Keeps.forM SparesFiles.refl SparesFiles.trans fun components _ => ?_
  dsimp only
  split_ifs
  · exact FsM.keeps_pure SparesFiles.refl _
  · exact createDir_spares _

/-- A removal takes files away at the absolute form of its path and below. -/
theorem removeDirAll_spares {path : Path} (h : ∀ l, path.location cwd <+: l → written l) :
    FsM.Keeps (SparesFiles written) (removeDirAll cwd path) := by
  refine FsM.keeps_look_bind SparesFiles.refl fun s l hl => ?_
  obtain rfl := Files.resolve_location hl
  refine SparesFiles.bind (FsM.keeps_look SparesFiles.refl _) (fun found => ?_) s
  rcases found with _ | _ | bytes
  · exact FsM.keeps_fail SparesFiles.refl _
  · refine FsM.keeps_look_bind SparesFiles.refl fun s gone hgone => ?_
    obtain rfl := Except.ok.inj hgone
    have hgone : FsM.Keeps (SparesFiles written) ((s.files.filesBelow (path.location cwd)).forM
        fun file => FsM.change (·.erase file)) :=
      FsM.Keeps.forM SparesFiles.refl SparesFiles.trans fun file hfile =>
        FsM.keeps_change SparesFiles.refl fun files =>
          .erase (h file (Files.prefix_of_mem_filesBelow hfile)) files
    have hlast : FsM.Keeps (SparesFiles written)
        (FsM.change (·.eraseBelow (path.location cwd))) :=
      FsM.keeps_change SparesFiles.refl fun files => .eraseBelow h files
    exact SparesFiles.bind hgone (fun _ => hlast) s
  · exact FsM.keeps_fail SparesFiles.refl _

/-- A copy writes at the absolute form of its target, if there is a file to copy. -/
theorem copyFile_spares {start : Files} {source target : Path}
    (h : start.IsFile (source.location cwd) ∨ written (source.location cwd) →
      written (target.location cwd)) :
    FsM.Keeps (SparesFrom written start) (copyFile cwd source target) := by
  refine FsM.keeps_look_bind SparesFrom.refl fun s l hl hs => ?_
  -- The source is a file, from the start or because it was written.
  have hwritten : written (target.location cwd) := by
    split at hl
    · cases hl
    · rename_i l' hresolve
      obtain rfl := Files.resolve_location hresolve
      cases hget : s.files.get (source.location cwd) with
      | none =>
        rw [hget] at hl
        cases hl
      | some entry =>
        rw [hget] at hl
        cases entry with
        | dir => cases hl
        | file bytes =>
          by_cases hsource : written (source.location cwd)
          · exact h (.inr hsource)
          · exact h (.inl (hs.old _ hsource ⟨bytes, hget⟩))
  refine (FsM.keeps_look_bind SparesFrom.refl fun s made hmade => ?_) s hs
  obtain rfl := Files.resolve_location hmade
  have hset : ∀ entry, FsM.Keeps (SparesFrom written start)
      (FsM.change (·.set (target.location cwd) entry)) := fun entry =>
    SparesFrom.of_spares (FsM.keeps_change SparesFiles.refl fun files => .set hwritten files entry)
  refine SparesFrom.bind (.look _) (fun found => ?_) s
  split
  · exact .fail _
  · refine SparesFrom.bind (hset _) fun _ => SparesFrom.bind (.look _) fun found => ?_
    split
    · exact hset _
    · exact .fail _

/-- A directory that is being removed when the budget is used up: its files are gone. -/
theorem removeDirAll_stops {path : Path} {files : Files} (hthere : files.hasPath cwd path = true)
    (h : files.get (path.location cwd) = some .dir) :
    removeDirAll cwd path ⟨files, (files.filesBelow (path.location cwd)).length⟩ =
      (.error .io, ⟨(files.filesBelow (path.location cwd)).foldl Files.erase files, 0⟩) := by
  have hloop : ∀ (gone : List Location) (files : Files),
      (gone.forM fun file => FsM.change (·.erase file)) ⟨files, gone.length⟩ =
        (.ok ⟨⟩, ⟨gone.foldl Files.erase files, 0⟩) := by
    intro gone
    induction gone with
    | nil => exact fun files => rfl
    | cons first gone ih => exact fun files => ih (files.erase first)
  simp only [removeDirAll, Bind.bind, FsM.look, (Files.canonicalize_of_hasPath hthere).1, h, hloop]
  rfl

theorem removeDirAll_file {path : Path} {files : Files} {bytes : Bytes}
    (hthere : files.hasPath cwd path = true)
    (h : files.get (path.location cwd) = some (.file bytes)) (budget : ℕ) :
    removeDirAll cwd path ⟨files, budget⟩ = (.error .notADirectory, ⟨files, budget⟩) := by
  simp only [removeDirAll, Bind.bind, FsM.look, (Files.canonicalize_of_hasPath hthere).1, h]
  rfl

end Operations

end TraceDB
