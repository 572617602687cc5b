import Refmon.MountNamespace
import Refmon.Library.PathWalk

/-!
# Filesystems on the table

A `Layout` lists the files of some filesystems and where they are mounted, and looks paths up by
walking them. Sound layouts are namespaces in the sense of `MountNamespace`, with one filesystem
in the sense of `SingleMount`; they are the inputs on which the hooks are run.
-/

namespace Refmon

open SlashPath PathWalk MountNamespace

/-- A place within a filesystem. -/
structure Dentry where
  fs : ℕ
  names : List FileName
deriving DecidableEq

/-- What a file is. -/
inductive FileKind
  | dir
  | file
  | symlink (target : CString)
deriving DecidableEq

/-- A file, with its inode number on its device. -/
structure File where
  ino : UInt64
  kind : FileKind
deriving DecidableEq

/-- The text can be the name of a file. -/
class IsFileName (text : String) : Prop where
  valid : lit text ≠ [] ∧ slash ∉ lit text

/-- The file name of a literal. -/
def fileName (text : String) [h : IsFileName text] : FileName := ⟨lit text, h.valid⟩

instance : IsFileName "a" := ⟨by decide +kernel⟩
instance : IsFileName "b" := ⟨by decide +kernel⟩
instance : IsFileName "blocked-ops.log" := ⟨by decide +kernel⟩
instance : IsFileName "d" := ⟨by decide +kernel⟩
instance : IsFileName "f" := ⟨by decide +kernel⟩
instance : IsFileName "l" := ⟨by decide +kernel⟩
instance : IsFileName "mnt" := ⟨by decide +kernel⟩
instance : IsFileName "n" := ⟨by decide +kernel⟩
instance : IsFileName "o" := ⟨by decide +kernel⟩
instance : IsFileName "refmonfs" := ⟨by decide +kernel⟩
instance : IsFileName "s" := ⟨by decide +kernel⟩
instance : IsFileName "x" := ⟨by decide +kernel⟩

/-- Files, and the filesystems mounted on some of them. Filesystem 0 is the root's. -/
structure Layout where
  files : List (Dentry × File)
  mounts : List (Dentry × ℕ)

/-- The step that a component of a path stands for. -/
def toStep (component : CString) : Step FileName :=
  if component = lit "." then .stay
  else if component = lit ".." then .up
  else if h : component ≠ [] ∧ slash ∉ component then .down ⟨component, h⟩
  else .stay

/-- The steps of a path. A slash at the end asks for a directory, as a last `.` does. -/
def toSteps (path : CString) : List (Step FileName) := (path.splitOn slash).map toStep

/-- The most links that one lookup crosses. -/
def MAXSYMLINKS : ℕ := 40

/-- The error number of a failed walk. -/
def errno : WalkError → ℤ
  | .noEntry => -ENOENT
  | .notDir => -ENOTDIR
  | .loop => -ELOOP

/-- What a walk finds of a file. -/
def FileKind.node : FileKind → Node FileName
  | .dir => .dir
  | .file => .file
  | .symlink target => .link (isResolved target) (toSteps target)

namespace Layout

variable (l : Layout)

/-- The file of a dentry. -/
def file (dentry : Dentry) : Option File := (l.files.find? (·.1 = dentry)).map Prod.snd

/-- Cross a mount point. -/
def cross (dentry : Dentry) : Dentry :=
  match l.mounts.find? (·.1 = dentry) with
  | some mount => ⟨mount.2, []⟩
  | none => dentry

/-- The dentry at a place of the namespace. -/
def dentryAt (place : List FileName) : Dentry :=
  place.foldl (fun dentry name => l.cross ⟨dentry.fs, dentry.names ++ [name]⟩) ⟨0, []⟩

/-- What a walk finds at a place. -/
def node (place : List FileName) : Option (Node FileName) :=
  (l.file (l.dentryAt place)).map fun file => file.kind.node

/-- The inode of a dentry. -/
def inode (dentry : Dentry) : Inode :=
  match l.file dentry with
  | some file => ⟨file.ino, file.kind = .dir⟩
  | none => ⟨0, false⟩

/-- There is a directory. -/
def IsDir (dentry : Dentry) : Prop := (l.file dentry).map File.kind = some .dir

instance (dentry : Dentry) : Decidable (l.IsDir dentry) := inferInstanceAs (Decidable (_ = _))

/-- There is a symbolic link. -/
def isLink (dentry : Dentry) : Bool :=
  match l.file dentry with
  | some ⟨_, .symlink _⟩ => true
  | _ => false

/-- A working directory. -/
abbrev Cwd := {place : List FileName // l.node place = some .dir}

/-- The lookup of a path from a working directory. -/
def lookup (cwd : l.Cwd) (path : CString) (follow : Bool) : Except ℤ Dentry :=
  if path = [] then .error (-ENOENT)
  else if path.length ≥ PATH_MAX then .error (-ENAMETOOLONG)
  else
    match walk l.node follow MAXSYMLINKS (if isResolved path then [] else cwd.val) (toSteps path) with
    | .ok place => .ok (l.dentryAt place)
    | .error e => .error (errno e)

/-- A path, if it fits a buffer. -/
def print (names : List FileName) : Except ℤ CString :=
  if (pathOf names).length < PATH_MAX then .ok (pathOf names) else .error (-ENAMETOOLONG)

/-- What a process in a working directory sees. -/
def view (cwd : l.Cwd) : Vfs Dentry where
  kernPath := l.lookup cwd
  dentryPathRaw dentry := print dentry.names
  dPath := print cwd.val
  inode := l.inode

/-- The files are below directories, the root is one, and so are mount points and what is
mounted. -/
structure Sound : Prop where
  root : l.IsDir ⟨0, []⟩
  above : ∀ e ∈ l.files, e.1.names = [] ∨ l.IsDir ⟨e.1.fs, e.1.names.dropLast⟩
  mounts : ∀ m ∈ l.mounts, l.IsDir m.1 ∧ l.IsDir ⟨m.2, []⟩

/-- Nothing is mounted but the root's filesystem; names are ordinary, paths fit buffers, and
files with one inode number are of one kind. -/
structure Single : Prop where
  mounts : l.mounts = []
  fits : ∀ e ∈ l.files, (pathOf e.1.names).length < PATH_MAX
  ordinary : ∀ e ∈ l.files, ∀ name ∈ e.1.names, toStep name.val = .down name
  same_kind : ∀ e ∈ l.files, ∀ e' ∈ l.files, e.2.ino = e'.2.ino → l.isLink e.1 = true →
    l.isLink e'.1 = true

variable {l}

/-- Places extend their dentry, up to a mount. -/
theorem dentryAt_append (place : List FileName) (name : FileName) :
    l.dentryAt (place ++ [name]) =
      l.cross ⟨(l.dentryAt place).fs, (l.dentryAt place).names ++ [name]⟩ := by
  simp [dentryAt]

/-- A dentry with a file is listed. -/
theorem mem_of_file {dentry : Dentry} {file : File} (h : l.file dentry = some file) :
    (dentry, file) ∈ l.files := by
  rw [Layout.file, Option.map_eq_some_iff] at h
  obtain ⟨e, hfind, hfile⟩ := h
  have hdentry := List.find?_some hfind
  rw [decide_eq_true_eq] at hdentry
  rw [← hdentry, ← hfile]
  exact List.mem_of_find?_eq_some hfind

/-- What is not at the root of its filesystem is in a directory. -/
theorem Sound.parent (h : l.Sound) {fs : ℕ} {names : List FileName} {name : FileName}
    (hfile : l.file ⟨fs, names ++ [name]⟩ ≠ none) : l.IsDir ⟨fs, names⟩ := by
  obtain ⟨file, hfile⟩ := Option.ne_none_iff_exists'.mp hfile
  rcases h.above _ (mem_of_file hfile) with hnil | hdir
  · simp at hnil
  · rwa [List.dropLast_concat] at hdir

/-- A directory is a directory to a walk. -/
theorem node_of_isDir {place : List FileName} (h : l.IsDir (l.dentryAt place)) :
    l.node place = some .dir := by
  rw [IsDir, Option.map_eq_some_iff] at h
  obtain ⟨file, hfile, hkind⟩ := h
  rw [node, hfile, Option.map_some, hkind]
  rfl

/-- Walks in a sound layout start and go through directories. -/
theorem Sound.rooted (h : l.Sound) : Rooted l.node := by
  constructor
  · exact node_of_isDir h.root
  · intro place name hnode
    apply node_of_isDir
    have hfile : l.file (l.dentryAt (place ++ [name])) ≠ none := by
      intro hnone
      rw [node, hnone, Option.map_none] at hnode
      exact hnode rfl
    rw [dentryAt_append, cross] at hfile
    split at hfile
    · rename_i mount hfind
      have hpoint := (h.mounts mount (List.mem_of_find?_eq_some hfind)).1
      have hsame := List.find?_some hfind
      rw [decide_eq_true_eq] at hsame
      rw [hsame, IsDir] at hpoint
      have hpoint' := Option.ne_none_iff_exists'.mpr ⟨_, hpoint⟩
      rw [Ne, Option.map_eq_none_iff] at hpoint'
      exact h.parent hpoint'
    · exact h.parent hfile

/-- The links of a layout are the links that walks cross. -/
theorem solid_iff {place : List FileName} (h : l.node place ≠ none) :
    Solid l.node place ↔ l.isLink (l.dentryAt place) = false := by
  unfold node at h
  rw [Solid, node, isLink]
  cases hfile : l.file (l.dentryAt place) with
  | none => exact (h (by rw [hfile, Option.map_none])).elim
  | some file =>
    obtain ⟨ino, kind⟩ := file
    cases kind <;> simp [FileKind.node]

/-- A successful lookup is a walk to the dentry's place. -/
theorem walk_of_lookup {cwd : l.Cwd} {path : CString} {follow : Bool} {dentry : Dentry}
    (h : l.lookup cwd path follow = .ok dentry) :
    ∃ place, walk l.node follow MAXSYMLINKS (if isResolved path then [] else cwd.val) (toSteps path) =
      .ok place ∧ dentry = l.dentryAt place := by
  rw [lookup] at h
  split at h
  · cases h
  · split at h
    · cases h
    · split at h
      · rename_i place hwalk
        rw [Except.ok.injEq] at h
        exact ⟨place, hwalk, h.symm⟩
      · cases h

/-- A lookup that does not fail early is its walk. -/
theorem lookup_of_walk {cwd : l.Cwd} {path : CString} {follow : Bool} {place : List FileName}
    (hne : path ≠ []) (hfits : path.length < PATH_MAX)
    (h : walk l.node follow MAXSYMLINKS (if isResolved path then [] else cwd.val) (toSteps path) =
      .ok place) : l.lookup cwd path follow = .ok (l.dentryAt place) := by
  rw [lookup, if_neg hne, if_neg (Nat.not_le.mpr hfits), h]

/-- Lookups start in a directory. -/
theorem solid_start (h : l.Sound) (cwd : l.Cwd) (path : CString) :
    Solid l.node (if isResolved path then [] else cwd.val) := by
  split
  · exact Or.inl h.rooted.root
  · exact Or.inl cwd.property

/-- A sound layout is a namespace. -/
def mountNamespace (l : Layout) (h : l.Sound) : MountNamespace l.Cwd Dentry where
  view := l.view
  names := Dentry.names
  inode := l.inode
  device := Dentry.fs
  isLink dentry := l.isLink dentry = true
  dir_not_link dentry hdir := by
    unfold inode at hdir
    rw [isLink]
    cases hfile : l.file dentry with
    | none => simp
    | some file =>
      obtain ⟨ino, kind⟩ := file
      cases kind <;> simp [hfile] at hdir ⊢
  view_inode _ := rfl
  view_dentryPathRaw _ _ := rfl
  kernPath_absolute w w' path follow habs := by
    simp only [view, lookup, habs, if_true]
  follow_not_link w path dentry hfound := by
    obtain ⟨place, hwalk, hdentry⟩ := walk_of_lookup hfound
    obtain ⟨hnode, hsolid⟩ := walk_ends h.rooted (solid_start h w path) hwalk
    rw [hdentry, (solid_iff hnode).mp (hsolid rfl)]
    simp
  follow_of_not_link w path dentry hfound hlink := by
    obtain ⟨place, hwalk, hdentry⟩ := walk_of_lookup hfound
    obtain ⟨hnode, _⟩ := walk_ends h.rooted (solid_start h w path) hwalk
    rw [hdentry, Bool.not_eq_true] at hlink
    have hfollow := walk_follow hwalk ((solid_iff hnode).mpr hlink)
    simp only [view, lookup] at hfound ⊢
    rw [hwalk] at hfound
    rw [hfollow]
    exact hfound

instance (h : l.Sound) (dentry : Dentry) : Decidable ((l.mountNamespace h).isLink dentry) :=
  inferInstanceAs (Decidable (_ = true))

/-- The working directory at the root. -/
def Sound.rootDir (h : l.Sound) : l.Cwd := ⟨[], h.rooted.root⟩

section Single

variable (h : l.Sound) (hsingle : l.Single)

include hsingle

/-- With one filesystem the dentry at a place is the place. -/
theorem Single.dentryAt (place : List FileName) : l.dentryAt place = ⟨0, place⟩ := by
  induction place using List.reverseRecOn with
  | nil => rfl
  | append_singleton place name ih => rw [dentryAt_append, ih, cross, hsingle.mounts, List.find?_nil]

/-- The names of a listed file are ordinary. -/
theorem Single.map_toStep {names : List FileName} {file : File}
    (hmem : ((⟨0, names⟩ : Dentry), file) ∈ l.files) :
    names.map (fun name => toStep name.val) = names.map Step.down := by
  apply List.map_congr_left
  intro name hname
  exact hsingle.ordinary _ hmem name hname

include h

/-- What a lookup finds is a file of the one filesystem. -/
theorem Single.file_of_lookup {cwd : l.Cwd} {path : CString} {follow : Bool} {dentry : Dentry}
    (hfound : l.lookup cwd path follow = .ok dentry) :
    ∃ names file, dentry = ⟨0, names⟩ ∧ l.file ⟨0, names⟩ = some file := by
  obtain ⟨place, hwalk, hdentry⟩ := walk_of_lookup hfound
  obtain ⟨hnode, _⟩ := walk_ends h.rooted (solid_start h cwd path) hwalk
  rw [node, Ne, Option.map_eq_none_iff, hsingle.dentryAt] at hnode
  obtain ⟨file, hfile⟩ := Option.ne_none_iff_exists'.mp hnode
  rw [hsingle.dentryAt] at hdentry
  exact ⟨place, file, hdentry, hfile⟩

omit h in
/-- A walk finds the files of the one filesystem. -/
theorem Single.node_of_file {names : List FileName} {file : File}
    (hfile : l.file ⟨0, names⟩ = some file) : l.node names = some file.kind.node := by
  rw [node, hsingle.dentryAt, hfile, Option.map_some]

/-- Files are found at their own paths. -/
theorem Single.lookup_own {names : List FileName} {file : File}
    (hfile : l.file ⟨0, names⟩ = some file) (cwd : l.Cwd) :
    l.lookup cwd (pathOf names) false = .ok ⟨0, names⟩ := by
  have habs := isResolved_pathOf names
  have hroot := h.rooted.root
  have hmem := mem_of_file hfile
  have hnode : l.node names ≠ none := by
    rw [hsingle.node_of_file hfile]
    simp
  rw [← hsingle.dentryAt]
  apply lookup_of_walk (ne_nil_of_isResolved habs) (hsingle.fits _ hmem)
  rw [if_pos habs]
  by_cases hnil : names = []
  · subst hnil
    rw [show toSteps (pathOf []) = [.stay, .stay] by decide, walk_stay hroot, walk_stay hroot]
    exact walk_down h.rooted hnode _
  · rw [toSteps, pathOf, render_of_ne_nil hnil, splitOn_join, List.map_cons, List.map_map,
      show toStep [] = .stay by decide, walk_stay hroot, Function.comp_def, hsingle.map_toStep hmem]
    exact walk_down h.rooted hnode _

/-- A sound layout with one filesystem is a single-mount namespace. -/
theorem Single.singleMount : (l.mountNamespace h).SingleMount where
  fits w path follow dentry hfound := by
    obtain ⟨names, file, hdentry, hfile⟩ := hsingle.file_of_lookup h hfound
    rw [hdentry]
    exact hsingle.fits _ (mem_of_file hfile)
  shown w path follow dentry hfound v := by
    obtain ⟨names, file, hdentry, hfile⟩ := hsingle.file_of_lookup h hfound
    rw [hdentry]
    exact hsingle.lookup_own h hfile v
  same_kind dentry other hshown hother hino hlink := by
    have cwd := h.rootDir
    obtain ⟨names, file, hdentry, hfile⟩ := hsingle.file_of_lookup h (hshown cwd)
    obtain ⟨names', file', hdentry', hfile'⟩ := hsingle.file_of_lookup h (hother cwd)
    rw [hdentry] at hino hlink
    rw [hdentry'] at hino ⊢
    simp only [mountNamespace, inode, hfile, hfile'] at hino
    exact hsingle.same_kind _ (mem_of_file hfile) _ (mem_of_file hfile') hino hlink
  above dentry names hshown hpre hne := by
    obtain ⟨place, file, hdentry, hfile⟩ :=
      hsingle.file_of_lookup h (hshown h.rootDir)
    rw [hdentry] at hpre hne
    have hnode : l.node place ≠ none := by
      rw [hsingle.node_of_file hfile]
      simp
    have hdir : l.node names = some .dir := h.rooted.dir_of_prefix hnode hpre hne
    rw [node, Option.map_eq_some_iff, hsingle.dentryAt] at hdir
    obtain ⟨⟨ino, kind⟩, hfile', hkind⟩ := hdir
    refine ⟨⟨0, names⟩, rfl, hsingle.lookup_own h hfile', ?_⟩
    cases kind with
    | dir => simp [mountNamespace, inode, hfile']
    | file => cases hkind
    | symlink target => cases hkind

end Single

end Layout

end Refmon
