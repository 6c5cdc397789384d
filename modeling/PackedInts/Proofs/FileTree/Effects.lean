import Mathlib
import PackedInts.Proofs.FileTree.Ancestors
import PackedInts.Proofs.FileTree.Writing

/-!
# All that a write does to a tree

The directories that a write adds are those that were missing among the ancestors of its path, and they
are there before the file is opened. So a write that fails may leave some of them behind, but not where
it fails because a file stands in the way: then nothing was made.

* `directory_of_follow` -- a directory is reached from directories only;
* `follow_of_find` -- what existed is reached by plain names as it was;
* `resolve_of_makeDirectories`, `makeParent_again` -- what was made is there, and is not made again;
* `makeDirectories_of_file` -- a file in the way, and nothing is made;
* `exists_ancestor_of_new`, `new_of_missing_ancestor` -- the directories that are made on a way;
* `write_directories` -- the directories that a write adds;
* **`write_effect`** -- what a write changes, whether it succeeds or not.
-/

namespace PackedInts.FileTree

variable {t t' : FileTree} {path content a : Bytes} {loc place reached : Location}
  {names front rest : List Name}

/-! ## 1. Places on a way -/

/-- Names are followed part by part. -/
theorem follow_append_cases (h : t.follow loc (front ++ rest) = .ok reached) :
    ∃ between, t.follow loc front = .ok between ∧ t.follow between rest = .ok reached := by
  cases followed : t.follow loc front with
  | error fault =>
    unfold follow at h followed
    rw [List.foldlM_append, followed] at h
    cases h
  | ok between =>
    rw [follow_append_of_ok followed] at h
    exact ⟨between, rfl, h⟩

/-- A directory is only reached from a directory. -/
theorem directory_of_follow (h : t.follow loc names = .ok reached)
    (dir : t.find reached = some .directory) : t.find loc = some .directory := by
  cases names with
  | nil =>
    cases h
    exact dir
  | cons name names =>
    obtain ⟨between, entered, -⟩ := follow_cons_cases h
    exact (enter_cases entered).1

/-- **What existed is reached by plain names as it was**: all on the way to it existed too. -/
theorem follow_of_find (plain : ∀ name ∈ names, name ≠ Path.selfName ∧ name ≠ Path.parentName)
    (h : t'.follow loc names = .ok reached) (found : t.find reached ≠ none) :
    t.follow loc names = .ok reached := by
  induction names using List.reverseRecOn generalizing reached with
  | nil => exact h
  | append_singleton front last ih =>
    obtain ⟨self, parent⟩ := plain last (List.mem_append_right front List.mem_cons_self)
    obtain ⟨between, followed, rest⟩ := follow_append_cases h
    obtain ⟨next, entered, same⟩ := follow_cons_cases rest
    cases same
    obtain ⟨-, ⟨is_self, -⟩ | ⟨is_parent, -⟩ | ⟨ok, -, rfl⟩⟩ := enter_cases entered
    · exact absurd is_self self
    · exact absurd is_parent parent
    · have dir : t.find between = some .directory := t.find_parent found
      have before := ih (fun name member => plain name (List.mem_append_left _ member)) followed
        (ne_none_of_directory dir)
      rw [follow_append_of_ok before]
      exact follow_singleton (enter_of_fits dir ok found)

/-! ## 2. Directories that were made -/

/-- **Where directories were made, the names lead to one.** -/
theorem follow_of_makeAlong {t t' : FileTree} {loc : Location} {names : List Name}
    (dir : t.find loc = some .directory) (h : t.makeAlong loc names = (.ok (), t')) :
    ∃ reached, t'.follow loc names = .ok reached ∧ t'.find reached = some .directory := by
  induction names generalizing t loc with
  | nil =>
    cases h
    exact ⟨loc, rfl, dir⟩
  | cons name names ih =>
    rcases makeAlong_cons_cases dir name names with
      ⟨fault, refused⟩ | ⟨made, next, goes_on, there, entered, -⟩
    · rw [refused] at h
      cases h
    · rw [goes_on] at h
      have grown := makeAlong_grows names there
      rw [h] at grown
      obtain ⟨reached, followed, found⟩ := ih there h
      refine ⟨reached, ?_, found⟩
      rw [follow_cons_of_ok (grown.keeps.enter entered)]
      exact followed

theorem follow_of_extend (h : t.extend path = (.ok (), t')) :
    Path.visible path ≠ [] ∧ ∃ reached,
      t'.follow (t'.origin path) (Path.names (Path.visible path)) = .ok reached ∧
        t'.find reached = some .directory := by
  rcases extend_cases t path with
    ⟨fault, refused⟩ | ⟨nonempty, front, missing, loc, way, passed, dir, goes_on⟩
  · rw [refused] at h
    cases h
  · rw [goes_on] at h
    have grown := makeAlong_grows missing dir
    rw [h] at grown
    obtain ⟨reached, followed, found⟩ := follow_of_makeAlong dir h
    refine ⟨nonempty, reached, ?_, found⟩
    rw [way, grown.keeps.origin, follow_append_of_ok (grown.keeps.follow passed)]
    exact followed

/-- What leads nowhere for another reason is not too long. -/
theorem not_tooLong_of_resolve {fault : PathFault} (h : t.resolve path = .error fault)
    (other : fault ≠ .nameTooLong) : ¬ Path.tooLong (Path.visible path) = true := by
  intro long
  have nonempty : Path.visible path ≠ [] := by
    intro empty
    rw [empty] at long
    exact absurd long (by decide)
  unfold resolve locate at h
  rw [if_neg nonempty, if_pos long] at h
  cases h
  exact other rfl

/-- **A directory that was made is there.** -/
theorem resolve_of_makeDirectories (h : t.makeDirectories path = (.ok (), t')) :
    ∃ reached, t'.resolve path = .ok reached ∧ t'.find reached = some .directory := by
  unfold makeDirectories at h
  split at h
  · rename_i loc resolved
    split at h
    · rename_i dir
      cases h
      exact ⟨loc, resolved, dir⟩
    · cases h
  · cases h
  · rename_i fault other resolved
    have short := not_tooLong_of_resolve resolved other
    obtain ⟨nonempty, reached, followed, found⟩ := follow_of_extend h
    exact ⟨reached, resolve_eq_ok_iff.2 ⟨nonempty, short, followed, fun _ => found⟩, found⟩

/-- Nothing is made where the directory is there. -/
theorem makeDirectories_of_resolve (h : t.resolve path = .ok loc)
    (dir : t.find loc = some .directory) : t.makeDirectories path = (.ok (), t) := by
  unfold makeDirectories
  rw [h]
  exact if_pos dir

theorem makeParent_ok_cases (h : t.makeParent path = (.ok (), t')) :
    Path.parent path = [] ∧ t' = t ∨
      Path.parent path ≠ [] ∧ t.makeDirectories (Path.parent path) = (.ok (), t') := by
  unfold makeParent at h
  split at h
  · rename_i none
    cases h
    exact .inl ⟨none, rfl⟩
  · rename_i nonempty
    split at h
    · rename_i made
      cases h
      exact .inr ⟨nonempty, made⟩
    · cases h

/-- **What was made once is not made again.** -/
theorem makeParent_again (h : t.makeParent path = (.ok (), t')) :
    t'.makeParent path = (.ok (), t') := by
  rcases makeParent_ok_cases h with ⟨none, rfl⟩ | ⟨nonempty, made⟩
  · exact makeParent_of_no_parent none t'
  · obtain ⟨reached, resolved, dir⟩ := resolve_of_makeDirectories made
    unfold makeParent
    rw [if_neg nonempty, makeDirectories_of_resolve resolved dir]

/-- The way that was made leads to a directory, and is not too long. -/
theorem way_of_makeParent (h : t.makeParent path = (.ok (), t')) :
    ¬ Path.tooLong (Path.visible (Path.parent path)) = true ∧
      ∃ reached, t'.follow (t'.origin path) (wayTo path) = .ok reached ∧
        t'.find reached = some .directory := by
  unfold wayTo
  rcases makeParent_ok_cases h with ⟨none, rfl⟩ | ⟨-, made⟩
  · rw [none]
    exact ⟨by decide, t'.origin path, rfl, t'.find_origin path⟩
  · obtain ⟨reached, resolved, dir⟩ := resolve_of_makeDirectories made
    obtain ⟨-, short, followed, -⟩ := resolve_eq_ok_iff.1 resolved
    rw [origin_parent] at followed
    exact ⟨short, reached, followed, dir⟩

/-! ## 3. A file in the way -/

theorem descend_append_of_ok (h : t.follow loc front = .ok reached) (rest : List Name) :
    t.descend loc (front ++ rest) = t.descend reached rest := by
  induction front generalizing loc with
  | nil =>
    cases h
    rfl
  | cons name front ih =>
    obtain ⟨between, entered, followed⟩ := follow_cons_cases h
    rw [List.cons_append, descend, entered]
    exact ih followed

/-- No name is followed from a file. -/
theorem descend_of_not_directory (other : t.find loc ≠ some .directory) (names : List Name) :
    t.descend loc names = (loc, names) := by
  cases names with
  | nil => rfl
  | cons name names =>
    have refused : t.enter loc name = .error .notDirectory := if_pos other
    rw [descend, refused]

/-- **Where a file stands in the way nothing is made.** -/
theorem makeDirectories_of_file (followed : t.follow (t.origin path) front = .ok loc)
    (file : t.find loc = some (.file content))
    (way : front <+: Path.names (Path.visible path)) :
    ∃ fault, t.makeDirectories path = (.error fault, t) := by
  obtain ⟨rest, way⟩ := way
  have other : t.find loc ≠ some .directory := by
    rw [file]
    exact nofun
  unfold makeDirectories
  split
  · rename_i reached resolved
    obtain ⟨-, -, ends, -⟩ := resolve_eq_ok_iff.1 resolved
    rw [← way, follow_append_of_ok followed] at ends
    exact ⟨_, if_neg fun dir => other (directory_of_follow ends dir)⟩
  · exact ⟨_, rfl⟩
  · have stops : t.descend (t.origin path) (Path.names (Path.visible path)) = (loc, rest) := by
      rw [← way, descend_append_of_ok followed, descend_of_not_directory other]
    unfold extend
    dsimp only
    rw [stops]
    dsimp only
    rw [if_pos other]
    split
    · exact ⟨_, rfl⟩
    split
    · exact ⟨_, rfl⟩
    · exact ⟨_, rfl⟩

/-- An ancestor begins where the path begins. -/
theorem origin_ancestor (above : Path.IsAncestor path a) : t.origin a = t.origin path := by
  unfold origin
  rw [above.isAbsolute_eq]

/-- **A write with a file in its way is refused**, and the tree is as it was. -/
theorem write_of_file_above (above : Path.IsAncestor path a) (h : t.read a = .ok content)
    (new : Bytes) :
    ∃ fault, t.write path new = (.error (.cannotMakeDirectories (Path.parent path) fault), t) := by
  obtain ⟨loc, resolved, file⟩ := read_eq_ok_iff.1 h
  obtain ⟨nonempty, -, followed, -⟩ := resolve_eq_ok_iff.1 resolved
  rw [origin_ancestor above, ← origin_parent] at followed
  obtain ⟨fault, refused⟩ := makeDirectories_of_file followed file above.names_visible_prefix_parent
  have has_parent : Path.parent path ≠ [] := by
    intro none
    have nothing := List.prefix_nil.1 (none ▸ above.prefix_parent)
    rw [nothing] at nonempty
    exact nonempty rfl
  refine ⟨fault, ?_⟩
  unfold write makeParent
  rw [if_neg has_parent, refused]

/-! ## 4. The directories that a write adds -/

/-- Where a file was written the way to it is visible. -/
theorem zero_not_mem_parent_of_target (way : t.makeParent path = (.ok (), t'))
    (target : t'.target? path = some loc) : 0 ∉ Path.parent path := by
  intro zero
  obtain ⟨-, dir, front, last, named, followed, ok, accepts, rfl⟩ := target_cases target
  obtain ⟨self, parent, -⟩ := fits_iff.1 ok
  obtain ⟨-, reached, passed, found⟩ := way_of_makeParent way
  -- the names of the path are those of its parent, and so lead to a directory
  rw [wayTo, ← Path.visible_of_zero_mem_parent zero, named, follow_append_of_ok followed] at passed
  obtain ⟨next, entered, same⟩ := follow_cons_cases passed
  cases same
  obtain ⟨-, ⟨is_self, -⟩ | ⟨is_parent, -⟩ | ⟨-, -, rfl⟩⟩ := enter_cases entered
  · exact self is_self
  · exact parent is_parent
  · exact accepts.2 found

/-- Where a visible ancestor leads. -/
theorem resolve_ancestor_iff (above : Path.IsAncestor path a) (visible : 0 ∉ Path.parent path)
    (short : ¬ Path.tooLong (Path.visible (Path.parent path)) = true) :
    t.resolve a = .ok loc ↔ a ≠ [] ∧ t.follow (t.origin path) (Path.names a) = .ok loc := by
  have front := above.prefix_parent
  have shown : Path.visible a = a := Path.visible_eq_self fun zero => visible (front.subset zero)
  have short' : ¬ Path.tooLong a = true := by
    rw [Path.visible_eq_self visible] at short
    unfold Path.tooLong at short ⊢
    rw [decide_eq_true_iff, Nat.not_le] at short ⊢
    exact Nat.lt_of_le_of_lt front.length_le short
  rw [resolve_eq_ok_iff, shown, origin_ancestor above]
  refine ⟨fun parts => ⟨parts.1, parts.2.2.1⟩, fun ⟨nonempty, followed⟩ =>
    ⟨nonempty, short', followed, fun ends => ?_⟩⟩
  -- only an ancestor without a name may end in a slash, and that is where the path begins
  by_cases named : Path.names a = []
  · rw [named] at followed
    cases followed
    exact t.find_origin path
  · rw [above.endsInSlash_eq_false named] at ends
    cases ends

/-- Where the way to a file was made each visible ancestor leads to a directory. -/
theorem follow_ancestor (way : t.makeParent path = (.ok (), t')) (visible : 0 ∉ Path.parent path)
    (above : Path.IsAncestor path a) :
    ∃ reached, t'.follow (t'.origin path) (Path.names a) = .ok reached ∧
      t'.find reached = some .directory := by
  obtain ⟨-, last, followed, dir⟩ := way_of_makeParent way
  obtain ⟨rest, split⟩ := above.names_prefix_parent
  rw [wayTo, Path.visible_eq_self visible, ← split] at followed
  obtain ⟨reached, first, behind⟩ := follow_append_cases followed
  exact ⟨reached, first, directory_of_follow behind dir⟩

/-- **A directory that was made on the way** is that of an ancestor that led nowhere. -/
theorem exists_ancestor_of_new (way : t.makeParent path = (.ok (), t'))
    (visible : 0 ∉ Path.parent path) (new : t.find place ≠ some .directory)
    (there : t'.find place = some .directory) :
    ∃ a, Path.IsAncestor path a ∧ (∀ loc, t.resolve a ≠ .ok loc) ∧ t'.resolve a = .ok place := by
  have grown := makeParent_grows t path
  rw [way] at grown
  have same_origin := grown.keeps.origin path
  obtain ⟨short, -⟩ := way_of_makeParent way
  rcases grown.place place with same | ⟨missing, -, front, front_of, passed⟩
  · exact absurd (same ▸ there) new
  rw [wayTo, Path.visible_eq_self visible] at front_of
  have nonempty : front ≠ [] := by
    rintro rfl
    cases passed
    exact new (t.find_origin path)
  obtain ⟨a, above, rfl⟩ := Path.exists_ancestor front_of nonempty
  have has_name : a ≠ [] := fun none => nonempty (none ▸ rfl)
  refine ⟨a, above, fun loc resolved => ?_,
    (resolve_ancestor_iff above visible short).2 ⟨has_name, same_origin.symm ▸ passed⟩⟩
  -- what the ancestor led to before it leads to still, and nothing stood there
  obtain ⟨-, before⟩ := (resolve_ancestor_iff above visible short).1 resolved
  have same : loc = place := Except.ok.inj ((grown.keeps.follow before).symm.trans passed)
  exact find_of_resolve resolved (same ▸ missing)

/-- **What an ancestor that led nowhere names is a directory that was made**, if the path is plain. -/
theorem new_of_missing_ancestor (plain : Path.IsPlain path)
    (way : t.makeParent path = (.ok (), t')) (visible : 0 ∉ Path.parent path)
    (above : Path.IsAncestor path a) (missing : ∀ loc, t.resolve a ≠ .ok loc)
    (resolved : t'.resolve a = .ok place) :
    t.find place ≠ some .directory ∧ t'.find place = some .directory := by
  obtain ⟨short, -⟩ := way_of_makeParent way
  obtain ⟨has_name, passed⟩ := (resolve_ancestor_iff above visible short).1 resolved
  obtain ⟨reached, first, dir⟩ := follow_ancestor way visible above
  obtain rfl : reached = place := Except.ok.inj (first.symm.trans passed)
  have plain_above : ∀ name ∈ Path.names a, name ≠ Path.selfName ∧ name ≠ Path.parentName :=
    fun name member => plain name
      ((Path.names_parent_prefix_names path).subset (above.names_prefix_parent.subset member))
  refine ⟨fun old => ?_, dir⟩
  have grown := makeParent_grows t path
  rw [way] at grown
  rw [grown.keeps.origin] at passed
  have before := follow_of_find plain_above passed (ne_none_of_directory old)
  exact missing reached ((resolve_ancestor_iff above visible short).2 ⟨has_name, before⟩)

/-- **The directories that a write adds** are those of the ancestors that led nowhere. -/
theorem write_directories (plain : Path.IsPlain path) (h : t.write path content = (.ok (), t'))
    (place : Location) :
    (t.find place ≠ some .directory ∧ t'.find place = some .directory) ↔
      ∃ a, Path.IsAncestor path a ∧ (∀ loc, t.resolve a ≠ .ok loc) ∧ t'.resolve a = .ok place := by
  obtain ⟨made, loc, way, target, rfl⟩ := write_ok_cases h
  have accepts := accepts_of_target? target
  have kept := keeps_put accepts (.file content)
  have visible := zero_not_mem_parent_of_target way target
  constructor
  · rintro ⟨new, there⟩
    rw [find_put accepts] at there
    split at there
    · cases there
    · obtain ⟨a, above, missing, resolved⟩ := exists_ancestor_of_new way visible new there
      exact ⟨a, above, missing, kept.resolve resolved⟩
  · rintro ⟨a, above, missing, resolved⟩
    obtain ⟨short, -⟩ := way_of_makeParent way
    obtain ⟨has_name, passed⟩ := (resolve_ancestor_iff above visible short).1 resolved
    obtain ⟨reached, first, -⟩ := follow_ancestor way visible above
    rw [kept.origin] at passed
    obtain rfl : reached = place := Except.ok.inj ((kept.follow first).symm.trans passed)
    have resolved_made := (resolve_ancestor_iff above visible short).2 ⟨has_name, first⟩
    obtain ⟨new, there⟩ := new_of_missing_ancestor plain way visible above missing resolved_made
    exact ⟨new, kept.directory reached there⟩

/-! ## 5. What a write changes -/

/-- A place was spared: no file was created, changed or lost there, and no directory was lost. -/
structure Spared (t t' : FileTree) (place : Location) : Prop where
  file : ∀ c, t'.find place = some (.file c) ↔ t.find place = some (.file c)
  directory : t.find place = some .directory → t'.find place = some .directory

theorem Spared.of_eq (same : t'.find place = t.find place) : t.Spared t' place := by
  refine ⟨fun c => ?_, fun dir => ?_⟩
  · rw [same]
  · rw [same, dir]

theorem Made.spared (h : t.Made t' loc names place) : t.Spared t' place := by
  obtain ⟨missing, made, -⟩ := h
  refine ⟨fun c => ?_, fun _ => made⟩
  rw [missing, made]
  exact ⟨nofun, nofun⟩

theorem Grows.spared (h : t.Grows t' loc names) (place : Location) : t.Spared t' place :=
  (h.place place).elim Spared.of_eq Made.spared

/-- **A write that succeeds spares all but its file**, and that was no directory. -/
theorem write_spares (h : t.write path content = (.ok (), t')) :
    ∃ loc, t'.resolve path = .ok loc ∧ t.find loc ≠ some .directory ∧
      ∀ place, place ≠ loc → t.Spared t' place := by
  obtain ⟨-, loc, resolved, -, free, elsewhere⟩ := write_of_ok h
  refine ⟨loc, resolved, free, fun place other => ?_⟩
  rcases elsewhere place with here | same | made
  · exact absurd here other
  · exact .of_eq same
  · exact made.spared

/-- **What a write changes.** If it succeeds then the file reads as what was written, every other file
    is as it was, and the directories that are new are those that were missing among the ancestors of
    the path. If it fails then no file is created or changed, and nothing at all if a file stands in the
    way. Making the way to a file changes no file either, and once it is made it is not made again. -/
theorem write_effect (t : FileTree) (plain : Path.IsPlain path) (content : Bytes) :
    (∀ t', t.write path content = (.ok (), t') →
      t'.read path = .ok content ∧
      (∃ loc, t'.resolve path = .ok loc ∧ t.find loc ≠ some .directory ∧
        ∀ place, place ≠ loc → t.Spared t' place) ∧
      ∀ place, (t.find place ≠ some .directory ∧ t'.find place = some .directory) ↔
        ∃ a, Path.IsAncestor path a ∧ (∀ loc, t.resolve a ≠ .ok loc) ∧
          t'.resolve a = .ok place) ∧
    (∀ e t', t.write path content = (.error e, t') → ∀ place, t.Spared t' place) ∧
    (∀ a old, Path.IsAncestor path a → t.read a = .ok old →
      ∃ e, t.write path content = (.error e, t)) ∧
    (∀ place, t.Spared (t.makeParent path).2 place) ∧
    ∀ t', t.makeParent path = (.ok (), t') → t'.makeParent path = (.ok (), t') := by
  refine ⟨fun t' h => ?_, fun e t' h => ?_, fun a old above file => ?_, ?_, fun t' h => ?_⟩
  · exact ⟨(write_of_ok h).read, write_spares h, write_directories plain h⟩
  · exact (write_of_error h).spared
  · obtain ⟨fault, refused⟩ := write_of_file_above above file content
    exact ⟨_, refused⟩
  · exact (makeParent_grows t path).spared
  · exact makeParent_again h

/-- Two levels of directories are made for one file, none where a file stands in the way of another, and
    one for a path that turns out to name no file. -/
theorem write_effect_below_one_file :
    ∃ t t' t'' : FileTree, t = .ofEntries [(ascii "d/x", some (ascii "1"))] ∧
      (t.write (ascii "d//b/c/f") (ascii "22") = (.ok (), t') ∧
        t'.read (ascii "d//b/c/f") = .ok (ascii "22") ∧
        t.find (t.start.child (ascii "d") |>.child (ascii "b")) ≠ some .directory ∧
        t'.find (t.start.child (ascii "d") |>.child (ascii "b")) = some .directory) ∧
      (∃ e, t.write (ascii "d/x/y/f") (ascii "3") = (.error e, t)) ∧
      ∃ e, t.write (ascii "d/n//") (ascii "4") = (.error e, t'') ∧
        ∀ place c, t''.find place = some (.file c) ↔ t.find place = some (.file c) := by
  obtain ⟨t, tree⟩ : ∃ t : FileTree, t = .ofEntries [(ascii "d/x", some (ascii "1"))] := ⟨_, rfl⟩
  have written : t.write (ascii "d//b/c/f") (ascii "22")
      = (.ok (), (t.write (ascii "d//b/c/f") (ascii "22")).2) :=
    Prod.ext (by subst tree; decide +kernel) rfl
  obtain ⟨fault, failed⟩ : ∃ e, (t.write (ascii "d/n//") (ascii "4")).1 = .error e :=
    ⟨.cannotOpenForWriting (ascii "d/n//"), by subst tree; decide +kernel⟩
  obtain ⟨done, -, -, -, -⟩ :=
    write_effect t (show Path.IsPlain (ascii "d//b/c/f") by decide +kernel) (ascii "22")
  obtain ⟨read, -, new⟩ := done _ written
  obtain ⟨-, -, refused, -, -⟩ :=
    write_effect t (show Path.IsPlain (ascii "d/x/y/f") by decide +kernel) (ascii "3")
  obtain ⟨-, spared, -, -, -⟩ :=
    write_effect t (show Path.IsPlain (ascii "d/n//") by decide +kernel) (ascii "4")
  have failed : t.write (ascii "d/n//") (ascii "4")
      = (.error fault, (t.write (ascii "d/n//") (ascii "4")).2) := Prod.ext failed rfl
  refine ⟨t, _, _, tree, ⟨written, read, ?_⟩, ?_, fault, failed, fun place c => ?_⟩
  · refine (new _).2 ⟨ascii "d//b", ?_, fun loc => ?_, ?_⟩
    · exact show Path.IsAncestor _ (Path.parent (Path.parent (ascii "d//b/c/f"))) from
        .further .nearest
    · subst tree
      rw [show resolve _ (ascii "d//b") = .error .missing by decide +kernel]
      exact nofun
    · subst tree
      decide +kernel
  · refine refused (ascii "d/x") (ascii "1") ?_ (by subst tree; decide +kernel)
    exact show Path.IsAncestor _ (Path.parent (Path.parent (ascii "d/x/y/f"))) from
      .further .nearest
  · exact (spared _ _ failed place).file c

end PackedInts.FileTree
