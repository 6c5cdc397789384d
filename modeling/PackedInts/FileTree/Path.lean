import PackedInts.Text.Words

/-!
# Paths

A path is a byte string whose names stand apart by slashes; any number of slashes between two names
is as good as one. A path with a slash in front is absolute and begins at the root; any other begins
at the working directory. A zero byte and all behind it is part of a path as it is written, but a
look-up goes only as far as the zero byte.

* `Path.names` -- the names of a path;
* `Path.isAbsolute` -- where a path begins;
* `Path.parent` -- the path of the directory that holds what a path names, as it is written;
* `Path.visible` -- the part of a path that a look-up goes by;
* `Path.endsInSlash`, `Path.tooLong` -- what else the path itself decides.

Main statements: `Path.visible_eq_self`, a path without a zero byte is looked up as it is written;
`Path.isAbsolute_visible`, a path and what shows of it begin at the same place.
-/

namespace PackedInts

abbrev Name := Bytes

namespace Path

def slash : UInt8 :=
  '/'.toUInt8

/-- The name by which a directory calls itself. -/
def selfName : Name :=
  ascii "."

/-- The name by which a directory calls the one above it. -/
def parentName : Name :=
  ascii ".."

def maxNameLength : Nat :=
  255

/-- The length at which a path is too long to be looked up. -/
def lengthLimit : Nat :=
  4096

/-- The part of a path that a look-up goes by. -/
def visible (path : Bytes) : Bytes :=
  beforeZero path

def names (path : Bytes) : List Name :=
  words (· == slash) path

/-- Whether a path begins at the root. -/
def isAbsolute (path : Bytes) : Bool :=
  path.head? == some slash

/-- Whether a path is too long to be looked up. -/
def tooLong (path : Bytes) : Bool :=
  lengthLimit ≤ path.length

/-- Whether a path ends in a slash, and so can only name a directory. -/
def endsInSlash (path : Bytes) : Bool :=
  path.getLast? == some slash

/-- What stands before the last run of slashes; nothing if there is no slash. -/
def beforeLastSlashes (path : Bytes) : Bytes :=
  ((path.reverse.dropWhile (· != slash)).dropWhile (· == slash)).reverse

/-- The path of the directory that holds what a path names: what stands before the last run of
    slashes, or the root if an absolute path has nothing there. A path of slashes only is its own
    parent. -/
def parent (path : Bytes) : Bytes :=
  if path.all (· == slash) then path
  else if isAbsolute path ∧ beforeLastSlashes path = [] then [slash]
  else beforeLastSlashes path

/-- A path without a zero byte is looked up as it is written. -/
theorem visible_eq_self {path : Bytes} (h : 0 ∉ path) : visible path = path :=
  beforeZero_eq_self h

/-- A path and what shows of it begin at the same place. -/
theorem isAbsolute_visible (path : Bytes) : isAbsolute (visible path) = isAbsolute path := by
  cases path with
  | nil => rfl
  | cons b path =>
    by_cases zero : b = 0
    · subst zero
      rfl
    · unfold isAbsolute visible beforeZero
      rw [List.takeWhile_cons_of_pos (by simpa using zero)]
      rfl

end Path

end PackedInts
