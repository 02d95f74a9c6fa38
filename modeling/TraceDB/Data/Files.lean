import Mathlib.Data.List.Infix
import TraceDB.Data.Bytes

/-!
# File trees

A small model of a file system: files and directories by their location, and the operations that
change them.  An operation consists of changes, each of which may fail: `Fs.budget` says how many
are still to succeed, so that what holds for every budget holds wherever an operation stops.

`FsM.Keeps` is the rule for what a program does to the files whatever its outcome: a relation that
is kept by every change is kept by the program.  `SparesFiles` is the relation for a program that
writes files at some locations only.
-/

namespace TraceDB

/-- The names from the root of the file system. -/
abbrev Location := List String

/-- What is at a location. -/
inductive FileEntry where
  | dir
  | file (bytes : Bytes)
  deriving DecidableEq

/-- The files and directories, by location. -/
structure Files where
  entries : List (Location × FileEntry)
  deriving DecidableEq

namespace Files

variable (files : Files)

/-- What is at a location; the root is always there. -/
def get (l : Location) : Option FileEntry :=
  if l = [] then some .dir else (files.entries.find? fun entry => entry.1 = l).map (·.2)

def erase (l : Location) : Files := ⟨files.entries.filter fun entry => entry.1 ≠ l⟩

def set (l : Location) (entry : FileEntry) : Files := ⟨(l, entry) :: (files.erase l).entries⟩

/-- The names in a directory. -/
def children (l : Location) : List String :=
  files.entries.filterMap fun entry => if entry.1.dropLast = l then entry.1.getLast? else none

/-- The files at or below a location. -/
def filesBelow (l : Location) : List Location :=
  (files.entries.filter fun entry => l.isPrefixOf entry.1 && entry.2 ≠ .dir).map (·.1)

/-- Takes away everything at or below a location. -/
def eraseBelow (l : Location) : Files :=
  ⟨files.entries.filter fun entry => !l.isPrefixOf entry.1⟩

variable {files}

theorem get_erase_of_ne {l l' : Location} (h : l' ≠ l) : (files.erase l).get l' = files.get l' := by
  have hkeep : (fun entry : Location × FileEntry =>
      decide (decide (entry.1 ≠ l) = true ∧ decide (entry.1 = l') = true)) =
      fun entry => decide (entry.1 = l') := by
    funext entry
    by_cases hentry : entry.1 = l'
    · simp [hentry, h]
    · simp [hentry]
  rw [get, get, erase, List.find?_filter, hkeep]

theorem get_erase_self {l : Location} (h : l ≠ []) : (files.erase l).get l = none := by
  rw [get, if_neg h, erase, Option.map_eq_none_iff, List.find?_eq_none]
  intro entry hentry
  have hne := (List.mem_filter.1 hentry).2
  simpa using hne

theorem get_set_of_ne {l l' : Location} {entry : FileEntry} (h : l' ≠ l) :
    (files.set l entry).get l' = files.get l' := by
  have herase : (files.erase l).get l' = files.get l' := get_erase_of_ne h
  rw [get] at herase ⊢
  rw [set, List.find?_cons_of_neg (by simpa using h.symm)]
  exact herase

theorem get_set_self_dir {l : Location} : (files.set l .dir).get l = some .dir := by
  rw [get]
  split_ifs with hroot
  · rfl
  · rw [set, List.find?_cons_of_pos (by simp)]
    rfl

theorem get_eraseBelow {l l' : Location} (h : ¬ l <+: l') :
    (files.eraseBelow l).get l' = files.get l' := by
  have hnot : l.isPrefixOf l' = false := by
    rw [Bool.eq_false_iff, ne_eq, List.isPrefixOf_iff_prefix]
    exact h
  have hkeep : (fun entry : Location × FileEntry =>
      decide ((!l.isPrefixOf entry.1) = true ∧ decide (entry.1 = l') = true)) =
      fun entry => decide (entry.1 = l') := by
    funext entry
    by_cases hentry : entry.1 = l'
    · simp [hentry, hnot]
    · simp [hentry]
  rw [get, get, eraseBelow, List.find?_filter, hkeep]

theorem mem_entries_of_get {l : Location} {entry : FileEntry} (hroot : l ≠ [])
    (h : files.get l = some entry) : (l, entry) ∈ files.entries := by
  rw [get, if_neg hroot] at h
  obtain ⟨found, hfind, hentry⟩ := Option.map_eq_some_iff.1 h
  have hl := List.find?_some hfind
  have hmem := List.mem_of_find?_eq_some hfind
  obtain ⟨l', e⟩ := found
  obtain rfl : l' = l := by simpa using hl
  obtain rfl : e = entry := hentry
  exact hmem

theorem ne_nil_of_get {l : Location} {bytes : Bytes} (h : files.get l = some (.file bytes)) :
    l ≠ [] := by
  rintro rfl
  rw [get, if_pos rfl] at h
  cases h

theorem mem_filesBelow {dest l : Location} {bytes : Bytes} (h : files.get l = some (.file bytes))
    (hbelow : dest <+: l) : l ∈ files.filesBelow dest := by
  refine List.mem_map.2 ⟨(l, .file bytes), List.mem_filter.2
    ⟨mem_entries_of_get (ne_nil_of_get h) h, ?_⟩, rfl⟩
  simp [hbelow]

theorem prefix_of_mem_filesBelow {dest l : Location} (h : l ∈ files.filesBelow dest) :
    dest <+: l := by
  obtain ⟨entry, hentry, rfl⟩ := List.mem_map.1 h
  have hboth := (List.mem_filter.1 hentry).2
  simp only [Bool.and_eq_true, List.isPrefixOf_iff_prefix] at hboth
  exact hboth.1

/-- Files that are taken away one by one. -/
theorem get_foldl_erase {l : Location} (hroot : l ≠ []) {gone : List Location} (h : l ∈ gone)
    (files : Files) : (gone.foldl erase files).get l = none := by
  -- What is gone stays so while more is taken away.
  have hkeep : ∀ (gone : List Location) (files : Files), files.get l = none →
      (gone.foldl erase files).get l = none := by
    intro gone
    induction gone with
    | nil => exact fun files hnone => hnone
    | cons first gone ih =>
      intro files hnone
      refine ih (files.erase first) ?_
      by_cases hfirst : l = first
      · rw [← hfirst]
        exact get_erase_self hroot
      · rw [get_erase_of_ne hfirst]
        exact hnone
  induction gone generalizing files with
  | nil => cases h
  | cons first gone ih =>
    rcases List.mem_cons.1 h with rfl | hmem
    · exact hkeep gone _ (get_erase_self hroot)
    · exact ih hmem _

end Files

/-- Files and directories in which everything is in a directory. -/
structure FileTree extends Files where
  closed : ∀ l entry, toFiles.get l = some entry → ∀ above, above <+: l → above ≠ l →
    toFiles.get above = some .dir

/-! ### Programs -/

/-- Why an operation on files failed. -/
inductive FsError where
  | notFound
  | notADirectory
  | isADirectory
  | invalidInput
  | invalidFilename
  /-- Any other failure of the device. -/
  | io
  /-- The program itself refuses. -/
  | refused (message : String)
  deriving DecidableEq

/-- A file system. -/
structure Fs where
  files : Files
  /-- The changes that are still to succeed; the next one fails. -/
  budget : ℕ

/-- A program on a file system. -/
def FsM (α : Type) : Type := Fs → Except FsError α × Fs

namespace FsM

instance : Monad FsM where
  pure a := fun s => (.ok a, s)
  bind m f := fun s =>
    match m s with
    | (.ok a, s') => f a s'
    | (.error e, s') => (.error e, s')

variable {α β : Type}

/-- A check, or the reading of something. -/
def look (f : Files → Except FsError α) : FsM α := fun s => (f s.files, s)

def fail (e : FsError) : FsM α := fun s => (.error e, s)

/-- A change, which fails when the budget is used up. -/
def change (f : Files → Files) : FsM Unit := fun s =>
  match s.budget with
  | 0 => (.error .io, s)
  | budget + 1 => (.ok (), ⟨f s.files, budget⟩)

/-- What a program does to the files, however it ends. -/
def Keeps (R : Files → Files → Prop) (m : FsM α) : Prop := ∀ s, R s.files (m s).2.files

section Keeps

variable {R : Files → Files → Prop}

theorem keeps_pure (hrefl : ∀ files, R files files) (a : α) : Keeps R (pure a : FsM α) :=
  fun s => hrefl s.files

theorem keeps_look (hrefl : ∀ files, R files files) (f : Files → Except FsError α) :
    Keeps R (look f) :=
  fun s => hrefl s.files

theorem keeps_fail (hrefl : ∀ files, R files files) (e : FsError) : Keeps R (fail e : FsM α) :=
  fun s => hrefl s.files

theorem keeps_change (hrefl : ∀ files, R files files) {f : Files → Files}
    (h : ∀ files, R files (f files)) : Keeps R (change f) := by
  intro s
  unfold change
  split
  · exact hrefl _
  · exact h _

theorem Keeps.bind (htrans : ∀ a b c, R a b → R b c → R a c) {m : FsM α} {f : α → FsM β}
    (hm : Keeps R m) (hf : ∀ a, Keeps R (f a)) : Keeps R (m >>= f) := by
  intro s
  have hfirst := hm s
  show R s.files (match m s with
    | (.ok a, s') => f a s'
    | (.error e, s') => (.error e, s')).2.files
  rcases hrun : m s with ⟨_ | a, s'⟩
  · rw [hrun] at hfirst
    exact hfirst
  · rw [hrun] at hfirst
    exact htrans _ _ _ hfirst (hf a s')

/-- What is read can be used in the proof. -/
theorem keeps_look_bind {f : Files → Except FsError α} {g : α → FsM β}
    (hrefl : ∀ files, R files files) (h : ∀ s a, f s.files = .ok a → R s.files (g a s).2.files) :
      Keeps R (look f >>= g) := by
  intro s
  show R s.files (match (f s.files, s) with
    | (.ok a, s') => g a s'
    | (.error e, s') => (.error e, s')).2.files
  cases hf : f s.files with
  | error e => exact hrefl _
  | ok a => exact h s a hf

theorem Keeps.forM (hrefl : ∀ files, R files files) (htrans : ∀ a b c, R a b → R b c → R a c)
    {xs : List α} {f : α → FsM PUnit} (hf : ∀ x ∈ xs, Keeps R (f x)) : Keeps R (xs.forM f) := by
  induction xs with
  | nil => exact keeps_pure hrefl _
  | cons x xs ih =>
    rw [List.forall_mem_cons] at hf
    exact Keeps.bind htrans hf.1 fun _ => ih hf.2

end Keeps

end FsM

/-! ### Files that are spared -/

/-- There is a file at a location. -/
def Files.IsFile (files : Files) (l : Location) : Prop := ∃ bytes, files.get l = some (.file bytes)

/-- Only files at some locations were written, removed or made: every other one is as it was, and no
other one is new. -/
structure SparesFiles (written : Location → Prop) (files files' : Files) : Prop where
  kept : ∀ l bytes, ¬ written l → files.get l = some (.file bytes) →
    files'.get l = some (.file bytes)
  old : ∀ l, ¬ written l → files'.IsFile l → files.IsFile l

namespace SparesFiles

variable {written : Location → Prop}

theorem refl (files : Files) : SparesFiles written files files := ⟨fun _ _ _ h => h, fun _ _ h => h⟩

theorem trans (a b c : Files) (hab : SparesFiles written a b) (hbc : SparesFiles written b c) :
    SparesFiles written a c :=
  ⟨fun l bytes hl h => hbc.kept l bytes hl (hab.kept l bytes hl h),
    fun l hl h => hab.old l hl (hbc.old l hl h)⟩

/-- Files and what is elsewhere are the same. -/
theorem of_get {files files' : Files} (h : ∀ l, ¬ written l → files'.get l = files.get l) :
    SparesFiles written files files' :=
  ⟨fun l _ hl hfile => (h l hl).trans hfile,
    fun l hl ⟨bytes, hfile⟩ => ⟨bytes, (h l hl).symm.trans hfile⟩⟩

/-- A change at a location that may be written. -/
theorem set {l : Location} (h : written l) (files : Files) (entry : FileEntry) :
    SparesFiles written files (files.set l entry) :=
  .of_get fun _ hl' => Files.get_set_of_ne fun heq => hl' (heq ▸ h)

theorem erase {l : Location} (h : written l) (files : Files) :
    SparesFiles written files (files.erase l) :=
  .of_get fun _ hl' => Files.get_erase_of_ne fun heq => hl' (heq ▸ h)

theorem eraseBelow {dest : Location} (h : ∀ l, dest <+: l → written l) (files : Files) :
    SparesFiles written files (files.eraseBelow dest) :=
  .of_get fun l hl => Files.get_eraseBelow fun hbelow => hl (h l hbelow)

/-- A directory is made where nothing was. -/
theorem setDir {l : Location} {files : Files} (h : files.get l = none) :
    SparesFiles written files (files.set l .dir) := by
  refine ⟨fun l' bytes _ hfile => ?_, fun l' _ ⟨bytes, hfile⟩ => ⟨bytes, ?_⟩⟩
  · refine (Files.get_set_of_ne ?_).trans hfile
    rintro rfl
    rw [h] at hfile
    cases hfile
  · by_cases heq : l' = l
    · rw [heq, Files.get_set_self_dir] at hfile
      cases hfile
    · exact (Files.get_set_of_ne heq).symm.trans hfile

theorem mono {written' : Location → Prop} (h : ∀ l, written l → written' l) {files files' : Files}
    (hspares : SparesFiles written files files') : SparesFiles written' files files' :=
  ⟨fun l bytes hl => hspares.kept l bytes fun hwritten => hl (h l hwritten),
    fun l hl => hspares.old l fun hwritten => hl (h l hwritten)⟩

theorem bind {α β : Type} {m : FsM α} {f : α → FsM β} (hm : FsM.Keeps (SparesFiles written) m)
    (hf : ∀ a, FsM.Keeps (SparesFiles written) (f a)) : FsM.Keeps (SparesFiles written) (m >>= f) :=
  FsM.Keeps.bind SparesFiles.trans hm hf

/-- One run of a program, and then a program that spares files. -/
theorem run_bind {α β : Type} {start : Files} {m : FsM α} {f : α → FsM β} {s : Fs}
    (hm : SparesFiles written start (m s).2.files)
    (hf : ∀ a, FsM.Keeps (SparesFiles written) (f a)) :
    SparesFiles written start ((m >>= f) s).2.files := by
  show SparesFiles written start (match m s with
    | (.ok a, s') => f a s'
    | (.error e, s') => (.error e, s')).2.files
  rcases hrun : m s with ⟨_ | a, s'⟩
  · rw [hrun] at hm
    exact hm
  · rw [hrun] at hm
    exact trans _ _ _ hm (hf a s')

end SparesFiles

/-- The relation for a program that goes on from files that it has spared so far. -/
def SparesFrom (written : Location → Prop) (start files files' : Files) : Prop :=
  SparesFiles written start files → SparesFiles written start files'

namespace SparesFrom

variable {written : Location → Prop} {start : Files} {α β : Type}

theorem refl (files : Files) : SparesFrom written start files files := fun h => h

theorem trans (a b c : Files) (hab : SparesFrom written start a b)
    (hbc : SparesFrom written start b c) :
    SparesFrom written start a c :=
  fun h => hbc (hab h)

theorem bind {m : FsM α} {f : α → FsM β} (hm : FsM.Keeps (SparesFrom written start) m)
    (hf : ∀ a, FsM.Keeps (SparesFrom written start) (f a)) :
    FsM.Keeps (SparesFrom written start) (m >>= f) :=
  FsM.Keeps.bind SparesFrom.trans hm hf

theorem look (f : Files → Except FsError α) : FsM.Keeps (SparesFrom written start) (FsM.look f) :=
  FsM.keeps_look SparesFrom.refl f

theorem fail (e : FsError) : FsM.Keeps (SparesFrom written start) (FsM.fail e : FsM α) :=
  FsM.keeps_fail SparesFrom.refl e

theorem pure (a : α) : FsM.Keeps (SparesFrom written start) (Pure.pure a : FsM α) :=
  FsM.keeps_pure SparesFrom.refl a

theorem forM {xs : List α} {f : α → FsM PUnit}
    (hf : ∀ x ∈ xs, FsM.Keeps (SparesFrom written start) (f x)) :
    FsM.Keeps (SparesFrom written start) (xs.forM f) :=
  FsM.Keeps.forM SparesFrom.refl SparesFrom.trans hf

/-- A program that spares files wherever it starts. -/
theorem of_spares {m : FsM α} (h : FsM.Keeps (SparesFiles written) m) :
    FsM.Keeps (SparesFrom written start) m :=
  fun s hs => SparesFiles.trans _ _ _ hs (h s)

end SparesFrom

end TraceDB
