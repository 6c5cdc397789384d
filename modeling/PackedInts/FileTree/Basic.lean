import PackedInts.FileTree.Path

/-!
# File trees

A file tree is a finite map from locations to files and directories, in which everything stands in
a directory. At its top is the root, which stands in itself. One directory of the tree is the working
directory: there every path begins that does not begin at the root.

* `Location`, `Location.child`, `Location.parent` -- the places of a tree, and the steps between them;
* `FileTree` -- the map and the working directory, with the facts that make it a tree;
* `FileTree.find` -- what stands at a location;
* `FileTree.bare` -- a working directory, and nothing else but the directories that it stands in;
* `FileTree.put` -- puts a file or a directory at a location where it may stand;
* `FileTree.listing` -- all that lies below the working directory, sorted by path.

Main statements: `FileTree.find_put`, after `put` the location holds the new node and every other
location what it held; `FileTree.find_parent`, whatever exists stands in a directory.
-/

namespace PackedInts

/-! ## 1. Locations and nodes -/

/-- A place: the names that lead down to it from the root, the innermost first. -/
structure Location where
  names : List Name
  deriving DecidableEq, Repr

namespace Location

def root : Location := ⟨[]⟩

def child (loc : Location) (name : Name) : Location :=
  ⟨name :: loc.names⟩

/-- The directory that holds a place: one name less. The root stands in itself. -/
def parent (loc : Location) : Location :=
  ⟨loc.names.tail⟩

end Location

inductive Node
  | directory
  | file (content : Bytes)
  deriving DecidableEq, Repr

/-- What a list of entries holds at a location. The root is always there. -/
def nodeAt (entries : List (Location × Node)) (loc : Location) : Option Node :=
  if loc = .root then some .directory else entries.lookup loc

@[simp] theorem nodeAt_root (entries : List (Location × Node)) :
    nodeAt entries .root = some .directory :=
  if_pos rfl

theorem nodeAt_of_ne_root (entries : List (Location × Node)) {loc : Location} (h : loc ≠ .root) :
    nodeAt entries loc = entries.lookup loc :=
  if_neg h

/-- The entries with one location replaced or added. -/
def withEntry (entries : List (Location × Node)) (loc : Location) (node : Node) :
    List (Location × Node) :=
  (loc, node) :: entries.filter fun e => e.1 ≠ loc

/-- Entries at other locations are found as before. -/
theorem lookup_filter_ne {entries : List (Location × Node)} {loc other : Location}
    (h : other ≠ loc) :
    (entries.filter fun e => e.1 ≠ loc).lookup other = entries.lookup other := by
  induction entries with
  | nil => rfl
  | cons e entries ih =>
    obtain ⟨place, node⟩ := e
    by_cases he : place = loc
    · subst he
      simpa [List.lookup_cons, beq_eq_false_iff_ne.2 h] using ih
    · simp only [List.filter_cons, he, ne_eq, not_false_eq_true, decide_true, ite_true,
        List.lookup_cons]
      split <;> simp_all

/-- An entry that was set is found, and the others are found as before. -/
theorem nodeAt_withEntry (entries : List (Location × Node)) {loc : Location} (hloc : loc ≠ .root)
    (node : Node) (other : Location) :
    nodeAt (withEntry entries loc node) other =
      if other = loc then some node else nodeAt entries other := by
  by_cases htop : other = .root
  · subst htop
    rw [if_neg hloc.symm, nodeAt_root, nodeAt_root]
  · rw [nodeAt_of_ne_root _ htop, nodeAt_of_ne_root _ htop, withEntry, List.lookup_cons]
    by_cases h : other = loc
    · simp [h]
    · rw [beq_eq_false_iff_ne.2 h, if_neg h]
      exact lookup_filter_ne h

/-! ## 2. Trees -/

/-- A tree of files and directories, seen from one of its directories. -/
structure FileTree where
  entries : List (Location × Node)
  /-- The working directory. -/
  start : Location
  /-- No location stands twice. -/
  distinct : (entries.map Prod.fst).Nodup
  /-- Whatever exists stands in a directory. -/
  closed : ∀ loc, nodeAt entries loc ≠ none → nodeAt entries loc.parent = some .directory
  start_directory : nodeAt entries start = some .directory

namespace FileTree

def find (t : FileTree) (loc : Location) : Option Node :=
  nodeAt t.entries loc

@[simp] theorem find_root (t : FileTree) : t.find .root = some .directory :=
  nodeAt_root _

@[simp] theorem find_start (t : FileTree) : t.find t.start = some .directory :=
  t.start_directory

/-- **Whatever exists stands in a directory.** -/
theorem find_parent (t : FileTree) {loc : Location} (h : t.find loc ≠ none) :
    t.find loc.parent = some .directory :=
  t.closed loc h

/-- The directories to which names lead down from the root, without the root. -/
def lineage : List Name → List (Location × Node)
  | [] => []
  | name :: names => (⟨name :: names⟩, .directory) :: lineage names

/-- They hold the places on the way down, and no others. -/
theorem nodeAt_lineage (names : List Name) (loc : Location) :
    nodeAt (lineage names) loc = if loc.names <:+ names then some .directory else none := by
  by_cases top : loc = .root
  · subst top
    exact (nodeAt_root _).trans (if_pos List.nil_suffix).symm
  have named : loc.names ≠ [] := fun none => top (congrArg Location.mk none)
  rw [nodeAt_of_ne_root _ top]
  induction names with
  | nil => rw [if_neg (mt List.suffix_nil.1 named), lineage, List.lookup_nil]
  | cons name names ih =>
    rw [lineage, List.lookup_cons]
    by_cases here : loc = ⟨name :: names⟩
    · subst here
      simp
    · have other : ¬ loc.names = name :: names := fun same => here (congrArg Location.mk same)
      rw [beq_eq_false_iff_ne.2 here, ih]
      simp only [List.suffix_cons_iff, other, false_or]

theorem suffix_of_mem_lineage {names : List Name} {loc : Location}
    (h : loc ∈ (lineage names).map Prod.fst) : loc.names <:+ names := by
  induction names with
  | nil => cases h
  | cons name names ih =>
    rcases List.mem_cons.1 h with rfl | later
    · exact List.suffix_refl _
    · exact (ih later).trans (List.suffix_cons name names)

theorem nodup_lineage (names : List Name) : ((lineage names).map Prod.fst).Nodup := by
  induction names with
  | nil => exact List.nodup_nil
  | cons name names ih =>
    refine List.nodup_cons.2 ⟨fun again => ?_, ih⟩
    have shorter := (suffix_of_mem_lineage again).length_le
    rw [List.length_cons] at shorter
    omega

/-- The tree of a working directory and the directories that it stands in. -/
def bare (start : Location) : FileTree where
  entries := lineage start.names
  start := start
  distinct := nodup_lineage start.names
  closed := by
    intro loc h
    rw [nodeAt_lineage] at h ⊢
    split at h
    · rename_i suffix
      exact if_pos ((List.tail_suffix loc.names).trans suffix)
    · exact absurd rfl h
  start_directory := by
    rw [nodeAt_lineage, if_pos (List.suffix_refl _)]

/-- A node may be put at a location in a directory, where no directory stands yet. -/
def Accepts (t : FileTree) (loc : Location) : Prop :=
  t.find loc.parent = some .directory ∧ t.find loc ≠ some .directory

instance (t : FileTree) (loc : Location) : Decidable (t.Accepts loc) :=
  inferInstanceAs (Decidable (_ ∧ _))

/-- The root is not replaced, nor is any other directory. -/
theorem ne_of_accepts {t : FileTree} {loc place : Location} (ok : t.Accepts loc)
    (dir : t.find place = some .directory) : place ≠ loc :=
  fun same => ok.2 (same ▸ dir)

theorem ne_root_of_accepts {t : FileTree} {loc : Location} (ok : t.Accepts loc) : loc ≠ .root :=
  (ne_of_accepts ok t.find_root).symm

/-- A tree in which a node was put where it may stand is a tree. -/
theorem closed_withEntry (t : FileTree) {loc : Location} (ok : t.Accepts loc) (node : Node) :
    ∀ place, nodeAt (withEntry t.entries loc node) place ≠ none →
      nodeAt (withEntry t.entries loc node) place.parent = some .directory := by
  intro place h
  rw [nodeAt_withEntry _ (ne_root_of_accepts ok)] at h ⊢
  have holds : t.find place.parent = some .directory := by
    split at h
    · rename_i e
      exact e ▸ ok.1
    · exact t.closed place h
  rw [if_neg (ne_of_accepts ok holds)]
  exact holds

/-- Puts a file or a directory at a location. Where it may not stand, nothing changes. -/
def put (t : FileTree) (loc : Location) (node : Node) : FileTree :=
  if ok : t.Accepts loc then
    { entries := withEntry t.entries loc node
      start := t.start
      distinct := by
        rw [withEntry, List.map_cons, List.nodup_cons]
        refine ⟨by simp, List.Nodup.sublist (List.Sublist.map _ List.filter_sublist) t.distinct⟩
      closed := t.closed_withEntry ok node
      start_directory := by
        rw [nodeAt_withEntry _ (ne_root_of_accepts ok), if_neg (ne_of_accepts ok t.find_start)]
        exact t.start_directory }
  else t

/-- **After a node was put, its location holds it and every other what it held.** -/
theorem find_put {t : FileTree} {loc : Location} (ok : t.Accepts loc) (node : Node)
    (other : Location) :
    (t.put loc node).find other = if other = loc then some node else t.find other := by
  rw [put, dif_pos ok]
  exact nodeAt_withEntry t.entries (ne_root_of_accepts ok) node other

@[simp] theorem start_put (t : FileTree) (loc : Location) (node : Node) :
    (t.put loc node).start = t.start := by
  unfold put
  split
  · rfl
  · rfl

/-! ## 3. Listings -/

/-- Whether a location lies below the working directory. -/
def isBelowStart (t : FileTree) (loc : Location) : Bool :=
  t.start.names <:+ loc.names ∧ loc ≠ t.start

/-- The path from the working directory down to a location below it. -/
def pathFromStart (t : FileTree) (loc : Location) : Bytes :=
  [Path.slash].intercalate (loc.names.take (loc.names.length - t.start.names.length)).reverse

/-- The content of a file; none for a directory. -/
def contentOf : Node → Option Bytes
  | .directory => none
  | .file content => some content

/-- Everything below the working directory, each with its path and its content, in the order of the
    paths' bytes. -/
def listing (t : FileTree) : List (Bytes × Option Bytes) :=
  ((t.entries.filter fun e => t.isBelowStart e.1).map fun e =>
    (t.pathFromStart e.1, contentOf e.2)).mergeSort fun a b => a.1 ≤ b.1

end FileTree

end PackedInts
