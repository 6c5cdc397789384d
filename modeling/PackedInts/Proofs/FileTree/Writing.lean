import Mathlib
import PackedInts.FileTree.Access
import PackedInts.Proofs.FileTree.Ancestors

/-!
# What a write does to a tree

A write makes the directories on the way to a file, and then gives the file its content. Whatever
else stands in the tree stays what it was, the working directory too; nothing is ever lost, so a path
that led somewhere leads there still.

* `resolve_eq_ok_iff` -- when a path leads somewhere;
* `Keeps` -- nothing was lost: `Keeps.follow`, `Keeps.resolve`, names and paths lead where they led;
* `LiesOn` -- the places that one passes when names are followed;
* `Grows` -- nothing changed, but for new directories among the places of some names;
* `makeAlong_cons_cases`, `extend_cases` -- what is made of one name, and of a path;
* `makeAlong_grows`, `makeParent_grows` -- making directories lets the tree grow, also where it
  fails;
* `resolve_put_target` -- a file that is put where a path may be written is what the path names;
* `Writes` -- one file was written, and nothing else changed but for the way to it:
  **`write_of_ok`**, so it is with every write that succeeds; `write_of_error`, what the others leave;
* `Opens` -- a path can be opened for writing, and then a write succeeds.
-/

namespace PackedInts.FileTree

/-! ## 1. One name -/

section Enter

variable {t : FileTree} {loc next : Location} {name : Name}

theorem ne_none_of_directory (dir : t.find loc = some .directory) : t.find loc ≠ none := by
  rw [dir]
  exact Option.some_ne_none _

theorem enter_selfName (dir : t.find loc = some .directory) :
    t.enter loc Path.selfName = .ok loc := by
  unfold enter
  rw [if_neg (not_not.2 dir), if_pos rfl]

theorem enter_parentName (dir : t.find loc = some .directory) :
    t.enter loc Path.parentName = .ok loc.parent := by
  have other : Path.parentName ≠ Path.selfName := by decide
  unfold enter
  rw [if_neg (not_not.2 dir), if_neg other, if_pos rfl]

theorem fits_iff :
    fits name = true ↔
      name ≠ Path.selfName ∧ name ≠ Path.parentName ∧ ¬ Path.maxNameLength < name.length := by
  unfold fits
  rw [decide_eq_true_iff, Nat.not_lt]

/-- A name that a file may have leads to what has it. -/
theorem enter_of_fits (dir : t.find loc = some .directory) (ok : fits name = true)
    (there : t.find (loc.child name) ≠ none) : t.enter loc name = .ok (loc.child name) := by
  obtain ⟨self, parent, short⟩ := fits_iff.1 ok
  unfold enter
  rw [if_neg (not_not.2 dir), if_neg self, if_neg parent, if_neg short, if_neg there]

/-- **Where a name leads**: nowhere, up, or to what has that name. -/
theorem enter_cases (h : t.enter loc name = .ok next) :
    t.find loc = some .directory ∧
      (name = Path.selfName ∧ next = loc ∨ name = Path.parentName ∧ next = loc.parent ∨
        fits name = true ∧ t.find (loc.child name) ≠ none ∧ next = loc.child name) := by
  unfold enter at h
  by_cases dir : t.find loc = some .directory
  · rw [if_neg (not_not.2 dir)] at h
    refine ⟨dir, ?_⟩
    by_cases self : name = Path.selfName
    · rw [if_pos self] at h
      exact .inl ⟨self, (Except.ok.inj h).symm⟩
    rw [if_neg self] at h
    by_cases parent : name = Path.parentName
    · rw [if_pos parent] at h
      exact .inr (.inl ⟨parent, (Except.ok.inj h).symm⟩)
    rw [if_neg parent] at h
    by_cases short : Path.maxNameLength < name.length
    · rw [if_pos short] at h
      cases h
    rw [if_neg short] at h
    by_cases there : t.find (loc.child name) = none
    · rw [if_pos there] at h
      cases h
    rw [if_neg there] at h
    exact .inr (.inr ⟨fits_iff.2 ⟨self, parent, short⟩, there, (Except.ok.inj h).symm⟩)
  · rw [if_pos dir] at h
    cases h

end Enter

/-! ## 2. Trees in which nothing was lost -/

section Keeps

variable {t t' : FileTree} {loc next : Location} {name : Name} {names front : List Name}

theorem follow_cons_of_ok (h : t.enter loc name = .ok next) (names : List Name) :
    t.follow loc (name :: names) = t.follow next names := by
  unfold follow
  rw [List.foldlM_cons, h]
  rfl

theorem follow_append_of_ok (h : t.follow loc front = .ok next) (names : List Name) :
    t.follow loc (front ++ names) = t.follow next names := by
  unfold follow at h ⊢
  rw [List.foldlM_append, h]
  rfl

theorem follow_singleton (h : t.enter loc name = .ok next) : t.follow loc [name] = .ok next :=
  follow_cons_of_ok h []

/-- Names are followed one by one. -/
theorem follow_cons_cases (h : t.follow loc (name :: names) = .ok next) :
    ∃ between, t.enter loc name = .ok between ∧ t.follow between names = .ok next := by
  cases entered : t.enter loc name with
  | error fault =>
    unfold follow at h
    rw [List.foldlM_cons, entered] at h
    cases h
  | ok between =>
    rw [follow_cons_of_ok entered] at h
    exact ⟨between, rfl, h⟩

/-- **When a path leads somewhere**: it is neither empty nor too long, its names lead there, and if it
    ends in a slash then a directory stands there. -/
theorem resolve_eq_ok_iff {path : Bytes} :
    t.resolve path = .ok loc ↔
      Path.visible path ≠ [] ∧ ¬ Path.tooLong (Path.visible path) = true ∧
        t.follow (t.origin path) (Path.names (Path.visible path)) = .ok loc ∧
        (Path.endsInSlash (Path.visible path) = true → t.find loc = some .directory) := by
  unfold resolve locate
  rw [origin_visible]
  by_cases empty : Path.visible path = []
  · simp [empty]
  rw [if_neg empty]
  by_cases long : Path.tooLong (Path.visible path) = true
  · simp [long]
  rw [if_neg long]
  cases followed : t.follow (t.origin path) (Path.names (Path.visible path)) with
  | error fault => simp
  | ok reached =>
    by_cases bad : Path.endsInSlash (Path.visible path) = true ∧ t.find reached ≠ some .directory
    · simp only [if_pos bad]
      constructor
      · exact nofun
      · rintro ⟨-, -, same, shut⟩
        cases same
        exact absurd (shut bad.1) bad.2
    · simp only [if_neg bad]
      constructor
      · intro same
        cases same
        exact ⟨empty, long, rfl, fun ends => not_not.1 fun other => bad ⟨ends, other⟩⟩
      · exact fun parts => parts.2.2.1

/-- Nothing was lost: the working directory is the same, directories are directories still, and
    whatever existed exists. -/
structure Keeps (t t' : FileTree) : Prop where
  start : t'.start = t.start
  directory : ∀ loc, t.find loc = some .directory → t'.find loc = some .directory
  there : ∀ loc, t.find loc ≠ none → t'.find loc ≠ none

/-- A path begins where it began. -/
theorem Keeps.origin (h : t.Keeps t') (path : Bytes) : t'.origin path = t.origin path := by
  unfold FileTree.origin
  rw [h.start]

/-- A name leads where it led. -/
theorem Keeps.enter (h : t.Keeps t') (entered : t.enter loc name = .ok next) :
    t'.enter loc name = .ok next := by
  obtain ⟨dir, rest⟩ := enter_cases entered
  rcases rest with ⟨rfl, rfl⟩ | ⟨rfl, rfl⟩ | ⟨ok, found, rfl⟩
  · exact enter_selfName (h.directory _ dir)
  · exact enter_parentName (h.directory _ dir)
  · exact enter_of_fits (h.directory _ dir) ok (h.there _ found)

/-- **Names lead where they led.** -/
theorem Keeps.follow (h : t.Keeps t') (followed : t.follow loc names = .ok next) :
    t'.follow loc names = .ok next := by
  induction names generalizing loc with
  | nil => exact followed
  | cons name names ih =>
    obtain ⟨between, entered, rest⟩ := follow_cons_cases followed
    rw [follow_cons_of_ok (h.enter entered)]
    exact ih rest

/-- **A path leads where it led.** -/
theorem Keeps.resolve {path : Bytes} (h : t.Keeps t') (resolved : t.resolve path = .ok loc) :
    t'.resolve path = .ok loc := by
  obtain ⟨nonempty, short, followed, shut⟩ := resolve_eq_ok_iff.1 resolved
  refine resolve_eq_ok_iff.2 ⟨nonempty, short, ?_, fun ends => h.directory loc (shut ends)⟩
  rw [h.origin]
  exact h.follow followed

/-- A node that is put where it may stand takes nothing away: there was no directory, and now there
    is something. -/
theorem keeps_put (ok : t.Accepts loc) (node : Node) : t.Keeps (t.put loc node) := by
  refine ⟨start_put t loc node, fun place dir => ?_, fun place found => ?_⟩
  · rw [find_put ok, if_neg (ne_of_accepts ok dir)]
    exact dir
  · rw [find_put ok]
    by_cases same : place = loc
    · rw [if_pos same]
      exact Option.some_ne_none node
    · rw [if_neg same]
      exact found

end Keeps

/-! ## 3. Trees that grow along names -/

section Grows

variable {t t' : FileTree} {loc next place : Location} {name : Name} {names front : List Name}

/-- A place that one passes when names are followed. -/
def LiesOn (t : FileTree) (loc : Location) (names : List Name) (place : Location) : Prop :=
  ∃ front, front <+: names ∧ t.follow loc front = .ok place

theorem LiesOn.append (h : t.LiesOn next names place) (followed : t.follow loc front = .ok next) :
    t.LiesOn loc (front ++ names) place := by
  obtain ⟨passed, front_of, reached⟩ := h
  refine ⟨front ++ passed, (List.prefix_append_right_inj front).2 front_of, ?_⟩
  rw [follow_append_of_ok followed]
  exact reached

theorem LiesOn.cons (h : t.LiesOn next names place) (entered : t.enter loc name = .ok next) :
    t.LiesOn loc (name :: names) place :=
  h.append (follow_singleton entered)

theorem LiesOn.mono (h : t.LiesOn loc names place) (kept : t.Keeps t') :
    t'.LiesOn loc names place := by
  obtain ⟨passed, front_of, followed⟩ := h
  exact ⟨passed, front_of, kept.follow followed⟩

/-- A directory was made at a place that one passes when names are followed. -/
def Made (t t' : FileTree) (loc : Location) (names : List Name) (place : Location) : Prop :=
  t.find place = none ∧ t'.find place = some .directory ∧ t'.LiesOn loc names place

/-- Nothing changed, but for new directories among the places of some names. -/
structure Grows (t t' : FileTree) (loc : Location) (names : List Name) : Prop where
  start : t'.start = t.start
  place : ∀ place, t'.find place = t.find place ∨ t.Made t' loc names place

theorem Grows.refl (t : FileTree) (loc : Location) (names : List Name) : t.Grows t loc names :=
  ⟨rfl, fun _ => .inl rfl⟩

/-- A tree that grows loses nothing. -/
theorem Grows.keeps (h : t.Grows t' loc names) : t.Keeps t' := by
  refine ⟨h.start, fun place dir => ?_, fun place found => ?_⟩
  · rcases h.place place with same | ⟨-, made, -⟩
    · rw [same]
      exact dir
    · exact made
  · rcases h.place place with same | ⟨missing, -, -⟩
    · rw [same]
      exact found
    · exact absurd missing found

theorem Grows.append (h : t.Grows t' next names) (followed : t'.follow loc front = .ok next) :
    t.Grows t' loc (front ++ names) := by
  refine ⟨h.start, fun place => ?_⟩
  rcases h.place place with same | ⟨missing, made, lies⟩
  · exact .inl same
  · exact .inr ⟨missing, made, lies.append followed⟩

theorem Grows.cons (h : t.Grows t' next names) (entered : t'.enter loc name = .ok next) :
    t.Grows t' loc (name :: names) :=
  h.append (follow_singleton entered)

/-- A directory that is made first is one more that is new. -/
theorem Grows.of_put (ok : t.Accepts (loc.child name)) (missing : t.find (loc.child name) = none)
    (h : (t.put (loc.child name) .directory).Grows t' (loc.child name) names)
    (entered : t'.enter loc name = .ok (loc.child name)) : t.Grows t' loc (name :: names) := by
  refine ⟨h.start.trans (start_put t _ _), fun place => ?_⟩
  by_cases same : place = loc.child name
  · subst same
    have made : (t.put (loc.child name) .directory).find (loc.child name) = some .directory := by
      rw [find_put ok, if_pos rfl]
    exact .inr ⟨missing, h.keeps.directory _ made, [name], List.prefix_append [name] names,
      follow_singleton entered⟩
  · have before : (t.put (loc.child name) .directory).find place = t.find place := by
      rw [find_put ok, if_neg same]
    rcases h.place place with same' | ⟨gone, made, lies⟩
    · exact .inl (same'.trans before)
    · exact .inr ⟨before.symm.trans gone, made, lies.cons entered⟩

end Grows

/-! ## 4. Making directories -/

/-- **What is made of one name**: nothing, and that is the end; or the name leads on, in this tree or
    in the one with a directory of that name. -/
theorem makeAlong_cons_cases {t : FileTree} {loc : Location} (dir : t.find loc = some .directory)
    (name : Name) (names : List Name) :
    (∃ fault, t.makeAlong loc (name :: names) = (.error fault, t)) ∨
      ∃ made next, t.makeAlong loc (name :: names) = made.makeAlong next names ∧
        made.find next = some .directory ∧ made.enter loc name = .ok next ∧
        (made = t ∨ next = loc.child name ∧ t.Accepts next ∧ t.find next = none ∧
          made = t.put next .directory) := by
  rw [makeAlong]
  by_cases self : name = Path.selfName
  · rw [if_pos self, self]
    exact .inr ⟨t, loc, rfl, dir, enter_selfName dir, .inl rfl⟩
  rw [if_neg self]
  by_cases parent : name = Path.parentName
  · rw [if_pos parent, parent]
    exact .inr ⟨t, loc.parent, rfl, t.find_parent (ne_none_of_directory dir),
      enter_parentName dir, .inl rfl⟩
  rw [if_neg parent]
  by_cases short : Path.maxNameLength < name.length
  · rw [if_pos short]
    exact .inl ⟨_, rfl⟩
  rw [if_neg short]
  have ok : fits name = true := fits_iff.2 ⟨self, parent, short⟩
  cases found : t.find (loc.child name) with
  | none =>
    have accepts : t.Accepts (loc.child name) := ⟨dir, by rw [found]; exact nofun⟩
    have made : (t.put (loc.child name) .directory).find (loc.child name) = some .directory := by
      rw [find_put accepts, if_pos rfl]
    have still := (keeps_put accepts .directory).directory loc dir
    exact .inr ⟨_, loc.child name, rfl, made,
      enter_of_fits still ok (ne_none_of_directory made), .inr ⟨rfl, accepts, found, rfl⟩⟩
  | some node =>
    cases node with
    | file content => exact .inl ⟨_, rfl⟩
    | directory =>
      exact .inr ⟨t, loc.child name, rfl, found,
        enter_of_fits dir ok (ne_none_of_directory found), .inl rfl⟩

/-- **Making directories lets the tree grow along the names**, as far as it comes. -/
theorem makeAlong_grows {t : FileTree} {loc : Location} (names : List Name)
    (dir : t.find loc = some .directory) : t.Grows (t.makeAlong loc names).2 loc names := by
  induction names generalizing t loc with
  | nil => exact Grows.refl t loc []
  | cons name names ih =>
    rcases makeAlong_cons_cases dir name names with
      ⟨fault, refused⟩ | ⟨made, next, goes_on, there, entered, same | ⟨rfl, accepts, missing, rfl⟩⟩
    · rw [refused]
      exact Grows.refl t loc _
    · have grown := ih there
      rw [goes_on]
      rw [same] at grown entered ⊢
      exact grown.cons (grown.keeps.enter entered)
    · have grown := ih there
      rw [goes_on]
      exact Grows.of_put accepts missing grown (grown.keeps.enter entered)

/-- Names are followed to a place, and the others are left. -/
theorem follow_descend (t : FileTree) (loc : Location) (names : List Name) :
    ∃ front, names = front ++ (t.descend loc names).2 ∧
      t.follow loc front = .ok (t.descend loc names).1 := by
  induction names generalizing loc with
  | nil => exact ⟨[], rfl, rfl⟩
  | cons name names ih =>
    unfold descend
    cases entered : t.enter loc name with
    | error fault => exact ⟨[], rfl, rfl⟩
    | ok next =>
      obtain ⟨front, split, followed⟩ := ih next
      refine ⟨name :: front, ?_, ?_⟩
      · rw [List.cons_append, ← split]
      · rw [follow_cons_of_ok entered]
        exact followed

/-- **What is made of a path whose beginning exists**: nothing, and that is the end; or all behind the
    last place that exists. -/
theorem extend_cases (t : FileTree) (path : Bytes) :
    (∃ fault, t.extend path = (.error fault, t)) ∨
      Path.visible path ≠ [] ∧ ∃ front missing loc,
        Path.names (Path.visible path) = front ++ missing ∧
        t.follow (t.origin path) front = .ok loc ∧ t.find loc = some .directory ∧
        t.extend path = t.makeAlong loc missing := by
  obtain ⟨front, way, followed⟩ :=
    follow_descend t (t.origin path) (Path.names (Path.visible path))
  unfold extend
  dsimp only
  split
  · exact .inl ⟨_, rfl⟩
  split
  · exact .inl ⟨_, rfl⟩
  rename_i nonempty
  split
  · exact .inl ⟨_, rfl⟩
  · rename_i dir
    exact .inr ⟨nonempty, front, _, _, way, followed, not_not.1 dir, rfl⟩

theorem extend_grows (t : FileTree) (path : Bytes) :
    t.Grows (t.extend path).2 (t.origin path) (Path.names (Path.visible path)) := by
  rcases extend_cases t path with
    ⟨fault, refused⟩ | ⟨-, front, missing, loc, way, followed, dir, goes_on⟩
  · rw [refused]
    exact Grows.refl _ _ _
  · have grown := makeAlong_grows missing dir
    rw [goes_on, way]
    exact grown.append (grown.keeps.follow followed)

theorem makeDirectories_grows (t : FileTree) (path : Bytes) :
    t.Grows (t.makeDirectories path).2 (t.origin path) (Path.names (Path.visible path)) := by
  unfold makeDirectories
  split
  · split
    · exact Grows.refl _ _ _
    · exact Grows.refl _ _ _
  · exact Grows.refl _ _ _
  · exact extend_grows t path

/-- The names of the directories on the way to what a path names. -/
def wayTo (path : Bytes) : List Name :=
  Path.names (Path.visible (Path.parent path))

/-- The way to what a path names begins where the path begins. -/
theorem origin_parent (t : FileTree) (path : Bytes) :
    t.origin (Path.parent path) = t.origin path := by
  unfold origin
  rw [Path.isAbsolute_parent]

/-- **Making the directories on the way lets the tree grow along the way**, also where it fails. -/
theorem makeParent_grows (t : FileTree) (path : Bytes) :
    t.Grows (t.makeParent path).2 (t.origin path) (wayTo path) := by
  have grown := makeDirectories_grows t (Path.parent path)
  rw [origin_parent] at grown
  unfold makeParent
  split
  · exact Grows.refl _ _ _
  · split
    · rename_i made
      rw [made] at grown
      exact grown
    · rename_i made
      rw [made] at grown
      exact grown

/-! ## 5. Writing a file -/

section Write

variable {t t' : FileTree} {path content : Bytes} {loc : Location}

/-- **Where a path may be written**: in the directory to which all but its last name lead. -/
theorem target_cases (h : t.target? path = some loc) :
    ¬ (Path.tooLong (Path.visible path) = true ∨ Path.endsInSlash (Path.visible path) = true) ∧
      ∃ dir front last, Path.names (Path.visible path) = front ++ [last] ∧
        t.follow (t.origin path) front = .ok dir ∧ fits last = true ∧ t.Accepts loc ∧
        loc = dir.child last := by
  unfold target? locateTarget? at h
  rw [origin_visible] at h
  split at h
  · cases h
  rename_i plain
  refine ⟨plain, ?_⟩
  split at h
  · rename_i last dir named followed
    by_cases ok : fits last = true ∧ t.Accepts (dir.child last)
    · rw [if_pos ok] at h
      cases h
      refine ⟨dir, _, last, ?_, followed, ok.1, ok.2, rfl⟩
      exact (List.dropLast_append_getLast? last named).symm
    · rw [if_neg ok] at h
      cases h
  · cases h

/-- A path that may be written has a name that shows. -/
theorem visible_ne_nil_of_target (h : t.target? path = some loc) : Path.visible path ≠ [] := by
  obtain ⟨-, dir, front, last, named, -⟩ := target_cases h
  intro empty
  rw [empty] at named
  exact List.append_ne_nil_of_right_ne_nil front (List.cons_ne_nil last []) named.symm

/-- **A file that is put where a path may be written is what the path names.** -/
theorem resolve_put_target (h : t.target? path = some loc) (content : Bytes) :
    (t.put loc (.file content)).resolve path = .ok loc := by
  obtain ⟨plain, dir, front, last, named, followed, ok, accepts, rfl⟩ := target_cases h
  obtain ⟨short, open_ended⟩ := not_or.1 plain
  have kept := keeps_put accepts (.file content)
  have there : (t.put (dir.child last) (.file content)).find (dir.child last) ≠ none := by
    rw [find_put accepts, if_pos rfl]
    exact Option.some_ne_none _
  have entered := enter_of_fits (kept.directory dir accepts.1) ok there
  refine resolve_eq_ok_iff.2
    ⟨visible_ne_nil_of_target h, short, ?_, fun ends => absurd ends open_ended⟩
  rw [named, kept.origin, follow_append_of_ok (kept.follow followed)]
  exact follow_singleton entered

/-- One file was written: the path names it, it was no directory before, and nothing else changed,
    but for new directories on the way to it. -/
def Writes (t t' : FileTree) (path content : Bytes) : Prop :=
  t'.start = t.start ∧
  ∃ loc, t'.resolve path = .ok loc ∧ t'.find loc = some (.file content) ∧
    t.find loc ≠ some .directory ∧
    ∀ place, place = loc ∨ t'.find place = t.find place ∨
      t.Made t' (t.origin path) (wayTo path) place

/-- The file reads as what was written. -/
theorem Writes.read (h : t.Writes t' path content) : t'.read path = .ok content := by
  obtain ⟨-, loc, resolved, found, -, -⟩ := h
  exact read_eq_ok_iff.2 ⟨loc, resolved, found⟩

/-- A path that reads is not empty. -/
theorem ne_nil_of_read (h : t.read path = .ok content) : path ≠ [] := by
  rintro rfl
  obtain ⟨loc, resolved, -⟩ := read_eq_ok_iff.1 h
  cases resolved

/-- A path can be opened for writing: the directories on the way can be made, and then the path
    names a place for a file. -/
def Opens (t : FileTree) (path : Bytes) : Prop :=
  (t.makeParent path).1 = .ok () ∧ (t.makeParent path).2.target? path ≠ none

instance (t : FileTree) (path : Bytes) : Decidable (t.Opens path) :=
  inferInstanceAs (Decidable (_ ∧ _))

/-- A path that can be opened has a name. -/
theorem Opens.ne_nil (h : t.Opens path) : path ≠ [] := by
  rintro rfl
  obtain ⟨loc, target⟩ := Option.ne_none_iff_exists'.1 h.2
  exact visible_ne_nil_of_target target rfl

/-- **A write succeeds where the path can be opened.** -/
theorem write_of_opens (h : t.Opens path) (content : Bytes) :
    ∃ t', t.write path content = (.ok (), t') := by
  obtain ⟨loc, target⟩ := Option.ne_none_iff_exists'.1 h.2
  have way : t.makeParent path = (.ok (), (t.makeParent path).2) := Prod.ext h.1 rfl
  unfold write
  rw [way]
  dsimp only
  rw [target]
  exact ⟨_, rfl⟩

/-- What a write that succeeds did, step by step. -/
theorem write_ok_cases (h : t.write path content = (.ok (), t')) :
    ∃ made loc, t.makeParent path = (.ok (), made) ∧ made.target? path = some loc ∧
      t' = made.put loc (.file content) := by
  unfold write at h
  split at h
  · cases h
  · rename_i made way
    split at h
    · rename_i loc target
      cases h
      exact ⟨made, loc, way, target, rfl⟩
    · cases h

/-- **A write that succeeds writes one file.** -/
theorem write_of_ok (h : t.write path content = (.ok (), t')) : t.Writes t' path content := by
  obtain ⟨made, loc, way, target, rfl⟩ := write_ok_cases h
  have accepts := accepts_of_target? target
  have kept := keeps_put accepts (.file content)
  have grown := makeParent_grows t path
  rw [way] at grown
  refine ⟨kept.start.trans grown.start, loc, resolve_put_target target content, ?_, ?_,
    fun place => ?_⟩
  · rw [find_put accepts, if_pos rfl]
  · exact fun dir => accepts.2 (grown.keeps.directory loc dir)
  · by_cases same : place = loc
    · exact .inl same
    have put_elsewhere : (made.put loc (.file content)).find place = made.find place := by
      rw [find_put accepts, if_neg same]
    rcases grown.place place with before | ⟨missing, dir, lies⟩
    · exact .inr (.inl (put_elsewhere.trans before))
    · exact .inr (.inr ⟨missing, kept.directory place dir, lies.mono kept⟩)

/-- **A write that fails leaves new directories at most**, on the way to the file. -/
theorem write_of_error {e : FileError} (h : t.write path content = (.error e, t')) :
    t.Grows t' (t.origin path) (wayTo path) := by
  have grown := makeParent_grows t path
  unfold write at h
  split at h
  · rename_i way
    cases h
    rw [way] at grown
    exact grown
  · rename_i made way
    split at h
    · cases h
    · cases h
      rw [way] at grown
      exact grown

end Write

end PackedInts.FileTree
