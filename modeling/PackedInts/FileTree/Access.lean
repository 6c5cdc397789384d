import PackedInts.FileTree.Lookup

/-!
# Reading and writing files

Writing a file first makes the directories on the way to it, and only then opens the file. An
operation that fails leaves a tree behind: directories made before the failure stay.

* `FileError` -- why an operation failed, with the path as it was given;
* `FileTree.makeDirectories`, `FileTree.makeParent` -- the directories of a path, and those on
  the way to a file;
* `FileTree.read`, `FileTree.write` -- the content of a file;
* `FileTree.ofEntries` -- a tree made of files and directories, in a working directory of its own.

Main statements: `FileTree.read_eq_ok_iff`, a path reads exactly if it resolves to a file;
`FileTree.makeParent_of_no_parent`, a bare name needs no directory.
-/

namespace PackedInts

/-! ## 1. Errors -/

/-- Why an operation on files failed. -/
inductive FileError
  /-- Nothing of that path can be opened for reading. -/
  | cannotOpenForReading (path : Bytes)
  /-- What was opened at that path is a directory, which has no content. -/
  | cannotRead (path : Bytes)
  /-- No file of that path can be opened for writing. -/
  | cannotOpenForWriting (path : Bytes)
  /-- The directories of that path cannot be made. -/
  | cannotMakeDirectories (path : Bytes) (fault : PathFault)
  /-- It cannot be said whether the path exists. -/
  | cannotInspect (path : Bytes) (fault : PathFault)
  deriving DecidableEq, Repr

/-- The wording of a failure to read from a directory, which names no path. -/
def readMessage : Bytes :=
  ascii "basic_filebuf::underflow error reading the file: Is a directory"

/-- The wording of a failure to look a path up or to make it. -/
def systemMessage (operation : Bytes) (path : Bytes) (fault : PathFault) : Bytes :=
  ascii "filesystem error: " ++ operation ++ ascii ": " ++ fault.message ++ ascii " [" ++ path
    ++ ascii "]"

def FileError.wording : FileError → Bytes
  | .cannotOpenForReading path => ascii "Failed to open file for reading: " ++ path
  | .cannotRead _ => readMessage
  | .cannotOpenForWriting path => ascii "Failed to open file for writing: " ++ path
  | .cannotMakeDirectories path fault => systemMessage (ascii "create_directories") path fault
  | .cannotInspect path fault => systemMessage (ascii "status") path fault

/-- The message of an error. It ends before the first zero byte. -/
def FileError.message (e : FileError) : Bytes :=
  beforeZero e.wording

namespace FileTree

/-! ## 2. Directories -/

/-- The largest number of directories that are made for one path. -/
def maxNewDirectories : Nat :=
  1000

/-- Follows names as far as they lead: the place reached, and the names left. -/
def descend (t : FileTree) (loc : Location) : List Name → Location × List Name
  | [] => (loc, [])
  | name :: names =>
    match t.enter loc name with
    | .ok next => descend t next names
    | .error _ => (loc, name :: names)

/-- Follows names from a directory and makes the directories that are missing. -/
def makeAlong (t : FileTree) (loc : Location) : List Name → Except PathFault Unit × FileTree
  | [] => (.ok (), t)
  | name :: names =>
    if name = Path.selfName then makeAlong t loc names
    else if name = Path.parentName then makeAlong t loc.parent names
    else if Path.maxNameLength < name.length then (.error .nameTooLong, t)
    else
      match t.find (loc.child name) with
      | some .directory => makeAlong t (loc.child name) names
      | some (.file _) => (.error .occupied, t)
      | none => makeAlong (t.put (loc.child name) .directory) (loc.child name) names

/-- The names that make a directory of their own. -/
def ownNames (names : List Name) : List Name :=
  names.filter fun name => name ≠ Path.selfName ∧ name ≠ Path.parentName

/-- Makes a path whose beginning exists, and leaves the tree alone if that beginning ends in a
    file or if too much is missing. Names behind a zero byte are not made, but they count. -/
def extend (t : FileTree) (path : Bytes) : Except PathFault Unit × FileTree :=
  let visible := Path.names (Path.visible path)
  let (loc, missing) := t.descend (t.origin path) visible
  let asked := (Path.names path).drop (visible.length - missing.length)
  if maxNewDirectories < (ownNames asked).length then (.error .nameTooLong, t)
  else if Path.visible path = [] then (.error .missing, t)
  else if t.find loc ≠ some .directory then (.error .notDirectory, t)
  else t.makeAlong loc missing

/-- Makes the directory that a path names, and those on the way to it. -/
def makeDirectories (t : FileTree) (path : Bytes) : Except PathFault Unit × FileTree :=
  match t.resolve path with
  | .ok loc =>
    if t.find loc = some .directory then (.ok (), t) else (.error .notDirectory, t)
  | .error .nameTooLong => (.error .nameTooLong, t)
  | .error _ => t.extend path

/-- Makes the directories on the way to what a path names. -/
def makeParent (t : FileTree) (path : Bytes) : Except FileError Unit × FileTree :=
  if Path.parent path = [] then (.ok (), t)
  else
    match t.makeDirectories (Path.parent path) with
    | (.ok (), t') => (.ok (), t')
    | (.error fault, t') => (.error (.cannotMakeDirectories (Path.parent path) fault), t')

/-- **A bare name needs no directory.** -/
theorem makeParent_of_no_parent {path : Bytes} (h : Path.parent path = []) (t : FileTree) :
    t.makeParent path = (.ok (), t) := by
  rw [makeParent, if_pos h]

/-! ## 3. Files -/

/-- The content of the file that a path names. -/
def read (t : FileTree) (path : Bytes) : Except FileError Bytes :=
  match t.resolve path with
  | .error _ => .error (.cannotOpenForReading path)
  | .ok loc =>
    match t.find loc with
    | some (.file content) => .ok content
    | _ => .error (.cannotRead path)

/-- Makes the directories on the way and then gives the file that a path names its content, whether
    the file was there or not. -/
def write (t : FileTree) (path content : Bytes) : Except FileError Unit × FileTree :=
  match t.makeParent path with
  | (.error e, t') => (.error e, t')
  | (.ok (), t') =>
    match t'.target? path with
    | some loc => (.ok (), t'.put loc (.file content))
    | none => (.error (.cannotOpenForWriting path), t')

/-- **A path reads exactly if it resolves to a file**, and reads as that file's content. -/
theorem read_eq_ok_iff {t : FileTree} {path content : Bytes} :
    t.read path = .ok content ↔
      ∃ loc, t.resolve path = .ok loc ∧ t.find loc = some (.file content) := by
  unfold read
  cases h : t.resolve path with
  | error fault => simp
  | ok loc =>
    cases hf : t.find loc with
    | none => simp [hf]
    | some node => cases node <;> simp [hf]

/-! ## 4. Trees made of entries -/

/-- Puts a file with its content, or a directory, and the directories on the way, if that is
    possible. -/
def add (t : FileTree) : Bytes × Option Bytes → FileTree
  | (path, some content) => (t.write path content).2
  | (path, none) => (t.makeDirectories path).2

/-- A working directory of its own. -/
def workplace : Location :=
  Location.root.child (ascii "tmp") |>.child (ascii "workplace")

/-- The tree of files with their content and of directories, added in order to an empty working
    directory. -/
def ofEntries (entries : List (Bytes × Option Bytes)) : FileTree :=
  entries.foldl add (bare workplace)

end FileTree

end PackedInts
