import PackedInts.FileTree.Basic

/-!
# Looking paths up

A path is followed name by name from the root or from the working directory. Before each name the
place reached so far must be a directory; `.` stays there, `..` goes to the directory that holds it,
and stays at the root.

* `PathFault` -- why a path leads nowhere, or cannot be made;
* `FileTree.origin` -- where a path begins;
* `FileTree.enter`, `FileTree.follow` -- one name, and names one after the other;
* `FileTree.locate`, `FileTree.resolve` -- what a path names, as far as the path is visible;
* `FileTree.locateTarget?`, `FileTree.target?` -- the location at which a path names a file to be
  written, there or not.

Main statements: `FileTree.find_of_resolve`, what is resolved exists;
`FileTree.accepts_of_target?`, a file may be put at every target.
-/

namespace PackedInts

/-! ## 1. Faults -/

/-- Why a path leads nowhere, or cannot be made. -/
inductive PathFault
  | missing
  /-- Something that is no directory stands where a directory is needed. -/
  | notDirectory
  /-- A name or the path is too long. -/
  | nameTooLong
  /-- A file stands where a directory was to be made. -/
  | occupied
  deriving DecidableEq, Repr

def PathFault.message : PathFault → Bytes
  | .missing => ascii "No such file or directory"
  | .notDirectory => ascii "Not a directory"
  | .nameTooLong => ascii "File name too long"
  | .occupied => ascii "File exists"

namespace FileTree

/-! ## 2. Following names -/

/-- The place at which a path begins. -/
def origin (t : FileTree) (path : Bytes) : Location :=
  if Path.isAbsolute path then .root else t.start

/-- Follows one name from a place that exists. -/
def enter (t : FileTree) (loc : Location) (name : Name) : Except PathFault Location :=
  if t.find loc ≠ some .directory then .error .notDirectory
  else if name = Path.selfName then .ok loc
  else if name = Path.parentName then .ok loc.parent
  else if Path.maxNameLength < name.length then .error .nameTooLong
  else if t.find (loc.child name) = none then .error .missing
  else .ok (loc.child name)

/-- Follows names one after the other. -/
def follow (t : FileTree) (loc : Location) (names : List Name) : Except PathFault Location :=
  names.foldlM t.enter loc

/-- The location of what a path without a zero byte names, if it exists. A path that ends in a
    slash names a directory. -/
def locate (t : FileTree) (path : Bytes) : Except PathFault Location :=
  if path = [] then .error .missing
  else if Path.tooLong path then .error .nameTooLong
  else
    match t.follow (t.origin path) (Path.names path) with
    | .error fault => .error fault
    | .ok loc =>
      if Path.endsInSlash path ∧ t.find loc ≠ some .directory then .error .notDirectory
      else .ok loc

/-- The location of what a path names, if it exists. -/
def resolve (t : FileTree) (path : Bytes) : Except PathFault Location :=
  t.locate (Path.visible path)

/-- Whether a name may be given to a file. -/
def fits (name : Name) : Bool :=
  name ≠ Path.selfName ∧ name ≠ Path.parentName ∧ name.length ≤ Path.maxNameLength

/-- The location at which a path without a zero byte names a file that can be opened for writing:
    its last name is one for a file, the others lead to a directory, and no directory has that name
    there. -/
def locateTarget? (t : FileTree) (path : Bytes) : Option Location :=
  if Path.tooLong path ∨ Path.endsInSlash path then none
  else
    match (Path.names path).getLast?, t.follow (t.origin path) (Path.names path).dropLast with
    | some last, .ok loc =>
      if fits last ∧ t.Accepts (loc.child last) then some (loc.child last) else none
    | _, _ => none

/-- The location at which a path names a file that can be opened for writing. -/
def target? (t : FileTree) (path : Bytes) : Option Location :=
  t.locateTarget? (Path.visible path)

/-! ## 3. What is found -/

/-- Every path begins at a directory. -/
@[simp] theorem find_origin (t : FileTree) (path : Bytes) :
    t.find (t.origin path) = some .directory := by
  unfold origin
  split
  · exact t.find_root
  · exact t.find_start

@[simp] theorem origin_visible (t : FileTree) (path : Bytes) :
    t.origin (Path.visible path) = t.origin path := by
  unfold origin
  rw [Path.isAbsolute_visible]

/-- What one name leads to exists. -/
theorem find_of_enter {t : FileTree} {loc reached : Location} {name : Name}
    (h : t.enter loc name = .ok reached) : t.find reached ≠ none := by
  unfold enter at h
  split at h
  · cases h
  · rename_i hdir
    have hdir : t.find loc = some .directory := by simpa using hdir
    split at h
    · cases h
      simp [hdir]
    · split at h
      · cases h
        simp [t.find_parent (show t.find loc ≠ none by simp [hdir])]
      · split at h
        · cases h
        · split at h
          · cases h
          · rename_i found
            cases h
            exact found

/-- What names lead to from an existing place exists. -/
theorem find_of_follow {t : FileTree} {loc reached : Location} {names : List Name}
    (start : t.find loc ≠ none) (h : t.follow loc names = .ok reached) :
    t.find reached ≠ none := by
  induction names generalizing loc with
  | nil =>
    cases h
    exact start
  | cons name names ih =>
    rw [follow, List.foldlM_cons] at h
    cases he : t.enter loc name with
    | error fault => rw [he] at h; cases h
    | ok next =>
      rw [he] at h
      exact ih (find_of_enter he) h

/-- **What is resolved exists.** -/
theorem find_of_resolve {t : FileTree} {path : Bytes} {loc : Location}
    (h : t.resolve path = .ok loc) : t.find loc ≠ none := by
  unfold resolve locate at h
  split at h
  · cases h
  · split at h
    · cases h
    · split at h
      · cases h
      · rename_i reached hf
        split at h
        · cases h
        · cases h
          exact find_of_follow (by simp) hf

/-- **A file may be put at every target.** -/
theorem accepts_of_target? {t : FileTree} {path : Bytes} {loc : Location}
    (h : t.target? path = some loc) : t.Accepts loc := by
  unfold target? locateTarget? at h
  split at h
  · cases h
  · split at h
    · split at h
      · rename_i ok
        cases h
        exact ok.2
      · cases h
    · cases h

end FileTree

end PackedInts
