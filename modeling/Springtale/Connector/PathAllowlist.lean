import Mathlib.Data.List.DropRight
import Springtale.Lib.PathWalk

/-! The allow-lists of the filesystem connector: what they answer for a path, and what opening the
path would touch. -/
namespace Springtale.Connector.Filesystem

open Springtale.Lib

/-- What a call finds: the tree under the root directory, and the current directory. -/
structure FileSystem where
  entries : List (String × Node String)
  current : List String

structure FilesystemConfig where
  readPaths : List (Path String)
  writePaths : List (Path String)

inductive Component where
  | rootDir
  | curDir
  | parentDir
  | normal (name : String)

/-- The part that `Path::components` makes something of. -/
def componentOf : Lib.Part String → Option Component
  | .same => none
  | .up => some .parentDir
  | .name n => some (.normal n)

/-- The root, or a dot that a relative path begins with. -/
def firstComponent (path : Path String) : List Component :=
  if path.absolute then [.rootDir]
  else
    match path.parts with
    | .same :: _ => [.curDir]
    | _ => []

/-- `Path::components`. -/
def components (path : Path String) : List Component :=
  firstComponent path ++ path.parts.filterMap componentOf

/-- `Components::as_path` keeps the dot that a relative path begins with. -/
def trimRight (absolute : Bool) (parts : List (Lib.Part String)) : List (Lib.Part String) :=
  match absolute, parts with
  | false, .same :: rest => .same :: rest.rdropWhile (·.isSame)
  | _, parts => parts.rdropWhile (·.isSame)

/-- `Path::parent`. -/
def parent (path : Path String) : Option (Path String) :=
  match (components path).getLast? with
  | none | some .rootDir => none
  | some .curDir => some ⟨false, []⟩
  | some .parentDir | some (.normal _) =>
    some ⟨path.absolute, trimRight path.absolute (path.parts.rdropWhile (·.isSame)).dropLast⟩

/-- `Path::file_name`. -/
def fileName (path : Path String) : Option String :=
  match (components path).getLast? with
  | some (.normal name) => some name
  | _ => none

/-- As many links as the system follows for one path. -/
def maxLinks : Nat := 40

namespace FileSystem

variable (fs : FileSystem)

def root : Node String := .dir fs.entries

/-- Where the system ends up with a path. -/
def resolve (path : Path String) : Option (Found String) :=
  if path.isEmpty then none
  else walk fs.root maxLinks (startOf path fs.current) path.parts

/-- `Path::canonicalize`. -/
def canonicalize (path : Path String) : Option (List String) :=
  match fs.resolve path with
  | some (.at location _) => some location
  | _ => none

/-- What opening for reading touches. -/
def openForReading (path : Path String) : Option (List String) :=
  match fs.resolve path with
  | some (.at location _) => some location
  | _ => none

/-- What opening for writing touches or creates; it fails on a directory. -/
def openForWriting (path : Path String) : Option (List String) :=
  match fs.resolve path with
  | some (.at location _) => if isDir fs.root location then none else some location
  | some (.missing directory name) => some (directory ++ [name])
  | none => none

/-- `canonical.starts_with` one of the canonicalised paths. -/
def startsWithAllowed (allowlist : List (Path String)) (canonical : List String) : Bool :=
  allowlist.any fun allowed =>
    match fs.canonicalize allowed with
    | some allowedCanonical => allowedCanonical.isPrefixOf canonical
    | none => false

def isPathWithinAllowlist (path : Path String) (allowlist : List (Path String)) : Bool :=
  match fs.canonicalize path with
  | some canonical => fs.startsWithAllowed allowlist canonical
  | none =>
    -- a file to be written may not exist yet: its directory is canonicalised instead
    match (parent path).bind fs.canonicalize with
    | none => false
    | some directory =>
      match fileName path with
      | some name => fs.startsWithAllowed allowlist (directory ++ [name])
      | none => false

def isReadAllowed (config : FilesystemConfig) (path : Path String) : Bool :=
  fs.isPathWithinAllowlist path config.readPaths

def isWriteAllowed (config : FilesystemConfig) (path : Path String) : Bool :=
  fs.isPathWithinAllowlist path config.writePaths

/-- A location inside one of the canonicalised directories. -/
def Inside (allowlist : List (Path String)) (location : List String) : Prop :=
  ∃ allowed ∈ allowlist, ∃ base, fs.canonicalize allowed = some base ∧ base <+: location

def ReadConfined (config : FilesystemConfig) (path : Path String) : Prop :=
  fs.isReadAllowed config path = true →
    ∀ location, fs.openForReading path = some location → fs.Inside config.readPaths location

def WriteConfined (config : FilesystemConfig) (path : Path String) : Prop :=
  fs.isWriteAllowed config path = true →
    ∀ location, fs.openForWriting path = some location → fs.Inside config.writePaths location

/-- The path names a symbolic link that stands inside an allowed directory, and the link leads to a
file that does not exist, outside of them all. -/
def LeadsOut (allowlist : List (Path String)) (path : Path String) : Prop :=
  ∃ directory name target, (parent path).bind fs.canonicalize = some directory ∧
    fileName path = some name ∧ fs.root.get (directory ++ [name]) = some (.link target) ∧
    fs.Inside allowlist (directory ++ [name]) ∧
    ∃ elsewhere last, fs.resolve path = some (.missing elsewhere last) ∧
      ¬ fs.Inside allowlist (elsewhere ++ [last])

variable {fs} {allowlist : List (Path String)} {path : Path String}

theorem startsWithAllowed_iff {location : List String} :
    fs.startsWithAllowed allowlist location = true ↔ fs.Inside allowlist location := by
  rw [startsWithAllowed, List.any_eq_true, Inside]
  apply exists_congr
  intro allowed
  apply and_congr_right
  intro _
  cases fs.canonicalize allowed with
  | none => simp
  | some base => simp

end FileSystem

theorem last_name {parts : List (Lib.Part String)} {name : String}
    (h : (parts.filterMap componentOf).getLast? = some (.normal name)) :
    ∃ init post, parts = init ++ .name name :: post ∧ (∀ part ∈ post, part.isSame = true) ∧
      parts.rdropWhile (·.isSame) = init ++ [.name name] := by
  induction parts using List.reverseRecOn with
  | nil => cases h
  | append_singleton parts part ih =>
    rw [List.filterMap_append] at h
    cases part with
    | same =>
      obtain ⟨init, post, hparts, hpost, hdrop⟩ := ih (by simpa [componentOf] using h)
      refine ⟨init, post ++ [.same], by rw [hparts, List.append_assoc]; rfl, ?_, ?_⟩
      · intro p hp
        rcases List.mem_append.mp hp with hp | hp
        · exact hpost p hp
        · rw [List.mem_singleton.mp hp]
          rfl
      · rw [List.rdropWhile_concat_pos _ _ _ rfl, hdrop]
    | up => simp [componentOf] at h
    | name n =>
      obtain rfl : n = name := by simpa [componentOf] using h
      refine ⟨parts, [], rfl, fun p hp => (List.not_mem_nil hp).elim, ?_⟩
      rw [List.rdropWhile_concat_neg _ _ _ Bool.false_ne_true]

theorem trimRight_split (absolute : Bool) (parts : List (Lib.Part String)) :
    ∃ mid, parts = trimRight absolute parts ++ mid ∧ ∀ part ∈ mid, part.isSame = true := by
  have hdrop : ∀ parts : List (Lib.Part String), ∃ mid,
      parts = parts.rdropWhile (·.isSame) ++ mid ∧ ∀ part ∈ mid, part.isSame = true := by
    intro parts
    exact ⟨parts.rtakeWhile (·.isSame), List.rdropWhile_append_rtakeWhile.symm,
      fun p hp => List.mem_rtakeWhile_imp hp⟩
  obtain ⟨mid, hmid, hsame⟩ := hdrop parts
  cases absolute with
  | true => exact ⟨mid, hmid, hsame⟩
  | false =>
    cases parts with
    | nil => exact ⟨mid, hmid, hsame⟩
    | cons part parts =>
      cases part with
      | up => exact ⟨mid, hmid, hsame⟩
      | name n => exact ⟨mid, hmid, hsame⟩
      | same =>
        obtain ⟨mid, hmid, hsame⟩ := hdrop parts
        exact ⟨mid, congrArg (List.cons .same) hmid, hsame⟩

/-- A path with a file name is its parent's path, that name, and dots about it. -/
theorem parent_split {path : Path String} {name : String} (h : fileName path = some name) :
    ∃ pre mid post, path.parts = pre ++ (mid ++ .name name :: post) ∧
      (∀ part ∈ mid, part.isSame = true) ∧ (∀ part ∈ post, part.isSame = true) ∧
      parent path = some ⟨path.absolute, pre⟩ := by
  have hlast : (components path).getLast? = some (.normal name) := by
    rw [fileName] at h
    split at h
    · rename_i heq
      rw [heq, Option.some.inj h]
    · cases h
  have hparts : (path.parts.filterMap componentOf).getLast? = some (.normal name) := by
    rw [components, List.getLast?_append] at hlast
    cases hsome : (path.parts.filterMap componentOf).getLast? with
    | some c => rwa [hsome] at hlast
    | none =>
      rw [hsome, Option.none_or, firstComponent] at hlast
      split at hlast
      · cases hlast
      · split at hlast <;> cases hlast
  obtain ⟨init, post, heq, hpost, hdrop⟩ := last_name hparts
  obtain ⟨mid, hmid, hsame⟩ := trimRight_split path.absolute init
  refine ⟨trimRight path.absolute init, mid, post, ?_, hsame, hpost, ?_⟩
  · rw [← List.append_assoc, ← hmid, heq]
  · rw [parent, hlast, hdrop, List.dropLast_concat]

namespace FileSystem

variable {fs : FileSystem} {allowlist : List (Path String)} {path : Path String}

theorem canonicalize_eq_some {location : List String} (h : fs.canonicalize path = some location) :
    ∃ links, fs.resolve path = some (.at location links) := by
  rw [canonicalize] at h
  split at h
  · rename_i heq
    cases h
    exact ⟨_, heq⟩
  · cases h

theorem resolve_eq_some {found : Found String} (h : fs.resolve path = some found) :
    walk fs.root maxLinks (startOf path fs.current) path.parts = some found := by
  rw [resolve] at h
  split at h
  · cases h
  · exact h

/-- A missing file is the path's name in its directory, unless that name is a link's. -/
theorem missing_cases {directory elsewhere : List String} {name last : String}
    (hdirectory : (parent path).bind fs.canonicalize = some directory)
    (hname : fileName path = some name)
    (hmissing : fs.resolve path = some (.missing elsewhere last)) :
    (elsewhere = directory ∧ last = name) ∨
      ∃ target, fs.root.get (directory ++ [name]) = some (.link target) := by
  obtain ⟨pre, mid, post, hparts, hmid, hpost, hparent⟩ := parent_split hname
  rw [hparent, Option.bind_some] at hdirectory
  obtain ⟨links, hresolve⟩ := canonicalize_eq_some hdirectory
  have hpre := resolve_eq_some hresolve
  have hwalk := resolve_eq_some hmissing
  have hstart : startOf ⟨path.absolute, pre⟩ fs.current = startOf path fs.current := rfl
  rw [hstart] at hpre
  rw [hparts, walk_append, hpre] at hwalk
  have hlast := walk_same fs.root hmid hwalk
  rw [walk_cons] at hlast
  split at hlast
  · dsimp only at hlast
    cases hnode : fs.root.get (directory ++ [name]) with
    | none =>
      rw [hnode] at hlast
      dsimp only at hlast
      split at hlast
      · cases hlast
        exact .inl ⟨rfl, rfl⟩
      · cases hlast
    | some node =>
      cases node with
      | link target => exact .inr ⟨target, rfl⟩
      | file =>
        rw [hnode] at hlast
        rw [← List.append_nil post] at hlast
        have hend := walk_same fs.root hpost hlast
        rw [walk_nil] at hend
        cases hend
      | dir entries =>
        rw [hnode] at hlast
        rw [← List.append_nil post] at hlast
        have hend := walk_same fs.root hpost hlast
        rw [walk_nil] at hend
        cases hend
  · cases hlast

theorem readConfined (config : FilesystemConfig) : fs.ReadConfined config path := by
  intro hallowed location hopen
  have hcanonical : fs.canonicalize path = some location := hopen
  rw [isReadAllowed, isPathWithinAllowlist, hcanonical] at hallowed
  exact startsWithAllowed_iff.mp hallowed

/-- What the write allow-list has seen of a path when it answers yes for what is not there yet. -/
theorem allowed_missing (hcanonical : fs.canonicalize path = none)
    (h : fs.isPathWithinAllowlist path allowlist = true) :
    ∃ directory name, (parent path).bind fs.canonicalize = some directory ∧
      fileName path = some name ∧ fs.Inside allowlist (directory ++ [name]) := by
  rw [isPathWithinAllowlist, hcanonical] at h
  dsimp only at h
  split at h
  · cases h
  · rename_i directory hdirectory
    split at h
    · rename_i name hname
      exact ⟨directory, name, hdirectory, hname, startsWithAllowed_iff.mp h⟩
    · cases h

/-- Writing is confined unless the path's name is a link that leads out to a missing file. -/
theorem writeConfined_iff (config : FilesystemConfig) :
    fs.WriteConfined config path ↔ ¬ fs.LeadsOut config.writePaths path := by
  constructor
  · rintro hconfined ⟨directory, name, target, hdirectory, hname, -, hinside, elsewhere, last,
      hmissing, hout⟩
    have hcanonical : fs.canonicalize path = none := by rw [canonicalize, hmissing]
    have hallowed : fs.isWriteAllowed config path = true := by
      rw [isWriteAllowed, isPathWithinAllowlist, hcanonical, hdirectory, hname]
      exact startsWithAllowed_iff.mpr hinside
    have hopen : fs.openForWriting path = some (elsewhere ++ [last]) := by
      rw [openForWriting, hmissing]
    exact hout (hconfined hallowed _ hopen)
  · intro hnot hallowed location hopen
    rw [openForWriting] at hopen
    split at hopen
    · rename_i found links hresolve
      have hcanonical : fs.canonicalize path = some found := by rw [canonicalize, hresolve]
      split at hopen
      · cases hopen
      · cases hopen
        rw [isWriteAllowed, isPathWithinAllowlist, hcanonical] at hallowed
        exact startsWithAllowed_iff.mp hallowed
    · rename_i elsewhere last hmissing
      cases hopen
      have hcanonical : fs.canonicalize path = none := by rw [canonicalize, hmissing]
      obtain ⟨directory, name, hdirectory, hname, hinside⟩ := allowed_missing hcanonical hallowed
      rcases missing_cases hdirectory hname hmissing with ⟨rfl, rfl⟩ | ⟨target, hlink⟩
      · exact hinside
      · by_contra hout
        exact hnot ⟨directory, name, target, hdirectory, hname, hlink, hinside, elsewhere, last,
          hmissing, hout⟩
    · cases hopen

/-- Reading is confined to the allowed directories; writing is, exactly when the path does not name
a link that leads out of them to a file that does not exist. -/
theorem allowlist_confines (fs : FileSystem) (config : FilesystemConfig) (path : Path String) :
    fs.ReadConfined config path ∧
      (fs.WriteConfined config path ↔ ¬ fs.LeadsOut config.writePaths path) :=
  ⟨readConfined config, writeConfined_iff config⟩

/-- A workspace with a link to a file of another directory that nobody has made yet. -/
def withDanglingLink : FileSystem where
  entries :=
    [("work", .dir [("notes", .link ⟨true, [.name "etc", .name "new"]⟩)]), ("etc", .dir [])]
  current := []

def workOnly : FilesystemConfig := ⟨[], [⟨true, [.name "work"]⟩]⟩

/-- Writing the notes makes the other directory's file. -/
theorem dangling_link_escapes :
    withDanglingLink.isWriteAllowed workOnly ⟨true, [.name "work", .name "notes"]⟩ = true ∧
      withDanglingLink.openForWriting ⟨true, [.name "work", .name "notes"]⟩ =
        some ["etc", "new"] ∧
      ¬ withDanglingLink.WriteConfined workOnly ⟨true, [.name "work", .name "notes"]⟩ := by
  have hallowed : withDanglingLink.isWriteAllowed workOnly
      ⟨true, [.name "work", .name "notes"]⟩ = true := by decide +kernel
  have hopen : withDanglingLink.openForWriting ⟨true, [.name "work", .name "notes"]⟩ =
      some ["etc", "new"] := by decide +kernel
  refine ⟨hallowed, hopen, fun hconfined => ?_⟩
  have hinside := startsWithAllowed_iff.mpr (hconfined hallowed _ hopen)
  revert hinside
  decide +kernel

end FileSystem

end Springtale.Connector.Filesystem
