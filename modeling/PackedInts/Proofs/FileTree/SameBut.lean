import Mathlib
import PackedInts.FileTree.Access
import PackedInts.Proofs.Agree
import PackedInts.Proofs.FileTree.Writing

/-!
# Trees that are the same but for one file

Where a path leads, what directories are made on a way and whether a file can be opened depend on
where the files and the directories stand, but not on what the files hold. So two trees that differ
in the content of one file only come through everything side by side, until that file is written
over.

* `SameBut` -- two trees that are the same, but for the content of one file;
* `SameBut.resolve`, `SameBut.target?` -- paths lead to the same places in both;
* `SameBut.makeAlong`, `SameBut.makeParent` -- directories are made in both or in neither;
* **`SameBut.write`** -- a write comes to the same in both;
* **`write_contents`** -- two writes of different contents come to the same, but for the file that
  they write.
-/

namespace PackedInts.FileTree

variable {t t' : FileTree} {loc : Location} {c c' : Bytes}

/-! ## 1. Two trees -/

/-- **Two trees are the same but for one file**: it holds one content in the one and one in the
    other, and everywhere else the same stands in both, their working directory included. -/
structure SameBut (loc : Location) (c c' : Bytes) (t t' : FileTree) : Prop where
  start : t'.start = t.start
  left : t.find loc = some (.file c)
  right : t'.find loc = some (.file c')
  elsewhere : ∀ place, place ≠ loc → t'.find place = t.find place

namespace SameBut

/-- **At every place stands the same kind of thing** in both. -/
theorem find_cases (h : SameBut loc c c' t t') (place : Location) :
    t.find place = none ∧ t'.find place = none ∨
      t.find place = some .directory ∧ t'.find place = some .directory ∨
      ∃ x x', t.find place = some (.file x) ∧ t'.find place = some (.file x') := by
  by_cases same : place = loc
  · subst same
    exact .inr (.inr ⟨c, c', h.left, h.right⟩)
  rw [h.elsewhere place same]
  match t.find place with
  | none => exact .inl ⟨rfl, rfl⟩
  | some .directory => exact .inr (.inl ⟨rfl, rfl⟩)
  | some (.file x) => exact .inr (.inr ⟨x, x, rfl, rfl⟩)

theorem find_eq_none_iff (h : SameBut loc c c' t t') (place : Location) :
    t'.find place = none ↔ t.find place = none := by
  rcases h.find_cases place with ⟨here, there⟩ | ⟨here, there⟩ | ⟨x, x', here, there⟩
  all_goals rw [here, there]
  exact ⟨nofun, nofun⟩

theorem find_eq_directory_iff (h : SameBut loc c c' t t') (place : Location) :
    t'.find place = some .directory ↔ t.find place = some .directory := by
  rcases h.find_cases place with ⟨here, there⟩ | ⟨here, there⟩ | ⟨x, x', here, there⟩
  all_goals rw [here, there]
  exact ⟨nofun, nofun⟩

theorem accepts_iff (h : SameBut loc c c' t t') (place : Location) :
    t'.Accepts place ↔ t.Accepts place := by
  unfold Accepts
  rw [h.find_eq_directory_iff, ne_eq, h.find_eq_directory_iff]

/-! ## 2. Paths -/

theorem origin (h : SameBut loc c c' t t') : t'.origin = t.origin := by
  funext path
  unfold FileTree.origin
  rw [h.start]

theorem enter (h : SameBut loc c c' t t') : t'.enter = t.enter := by
  funext place name
  unfold FileTree.enter
  simp only [ne_eq, h.find_eq_directory_iff, h.find_eq_none_iff]

theorem follow (h : SameBut loc c c' t t') : t'.follow = t.follow := by
  unfold FileTree.follow
  rw [h.enter]

/-- **A path names the same place** in both. -/
theorem resolve (h : SameBut loc c c' t t') (path : Bytes) : t'.resolve path = t.resolve path := by
  unfold FileTree.resolve locate
  simp only [h.origin, h.follow, ne_eq, h.find_eq_directory_iff]

/-- **A file can be opened for writing at the same place** in both. -/
theorem target? (h : SameBut loc c c' t t') (path : Bytes) : t'.target? path = t.target? path := by
  unfold FileTree.target? locateTarget?
  simp only [h.origin, h.follow, h.accepts_iff]

theorem descend (h : SameBut loc c c' t t') (place : Location) (names : List Name) :
    t'.descend place names = t.descend place names := by
  induction names generalizing place with
  | nil => rfl
  | cons name names ih =>
    unfold FileTree.descend
    rw [h.enter]
    cases t.enter place name with
    | error fault => rfl
    | ok next => exact ih next

/-! ## 3. Directories -/

/-- What is put elsewhere is put into both or into neither. -/
theorem put (h : SameBut loc c c' t t') {place : Location} (other : place ≠ loc) (node : Node) :
    SameBut loc c c' (t.put place node) (t'.put place node) := by
  by_cases ok : t.Accepts place
  · have ok' : t'.Accepts place := (h.accepts_iff place).2 ok
    refine ⟨?_, ?_, ?_, fun elsewhere away => ?_⟩
    · rw [start_put, start_put, h.start]
    · rw [find_put ok, if_neg other.symm]
      exact h.left
    · rw [find_put ok', if_neg other.symm]
      exact h.right
    · rw [find_put ok, find_put ok', h.elsewhere elsewhere away]
  · have kept : t.put place node = t := dif_neg ok
    have kept' : t'.put place node = t' := dif_neg fun ok' => ok ((h.accepts_iff place).1 ok')
    rw [kept, kept']
    exact h

/-- **Directories are made in both**, and the same fault stops it. -/
theorem makeAlong (h : SameBut loc c c' t t') (place : Location) (names : List Name) :
    Agree (SameBut loc c c') (t.makeAlong place names) (t'.makeAlong place names) := by
  induction names generalizing t t' place with
  | nil => exact Agree.intro _ h
  | cons name names ih =>
    unfold FileTree.makeAlong
    by_cases self : name = Path.selfName
    · rw [if_pos self, if_pos self]
      exact ih h place
    rw [if_neg self, if_neg self]
    by_cases parent : name = Path.parentName
    · rw [if_pos parent, if_pos parent]
      exact ih h place.parent
    rw [if_neg parent, if_neg parent]
    by_cases long : Path.maxNameLength < name.length
    · rw [if_pos long, if_pos long]
      exact Agree.intro _ h
    rw [if_neg long, if_neg long]
    rcases h.find_cases (place.child name) with ⟨here, there⟩ | ⟨here, there⟩ | ⟨x, x', here, there⟩
    · -- nothing stands there, but the file does stand at its own place
      have other : place.child name ≠ loc := by
        intro same
        rw [same, h.left] at here
        cases here
      rw [here, there]
      exact ih (h.put other .directory) (place.child name)
    · rw [here, there]
      exact ih h (place.child name)
    · rw [here, there]
      exact Agree.intro _ h

theorem extend (h : SameBut loc c c' t t') (path : Bytes) :
    Agree (SameBut loc c c') (t.extend path) (t'.extend path) := by
  unfold FileTree.extend
  simp only [h.origin, h.descend, ne_eq, h.find_eq_directory_iff]
  split
  · exact Agree.intro _ h
  split
  · exact Agree.intro _ h
  split
  · exact Agree.intro _ h
  · exact h.makeAlong _ _

theorem makeDirectories (h : SameBut loc c c' t t') (path : Bytes) :
    Agree (SameBut loc c c') (t.makeDirectories path) (t'.makeDirectories path) := by
  unfold FileTree.makeDirectories
  simp only [h.resolve, h.find_eq_directory_iff]
  split
  · split
    · exact Agree.intro _ h
    · exact Agree.intro _ h
  · exact Agree.intro _ h
  · exact h.extend path

/-- **So are the directories on the way to a file.** -/
theorem makeParent (h : SameBut loc c c' t t') (path : Bytes) :
    Agree (SameBut loc c c') (t.makeParent path) (t'.makeParent path) := by
  obtain ⟨result, made, made', here, there, next⟩ := h.makeDirectories (Path.parent path)
  unfold FileTree.makeParent
  split
  · exact Agree.intro _ h
  · rw [here, there]
    cases result with
    | ok _ => exact Agree.intro _ next
    | error fault => exact Agree.intro _ next

/-! ## 4. Files -/

/-- **A write comes to the same in both.** The trees are the same but for that file afterwards too;
    if it is the file that was written over, they are the same altogether. -/
theorem write (h : SameBut loc c c' t t') (path content : Bytes) :
    ∃ result t₁ t₁', t.write path content = (result, t₁) ∧ t'.write path content = (result, t₁') ∧
      (SameBut loc c c' t₁ t₁' ∨
        result = .ok () ∧ t₁.resolve path = .ok loc ∧ t₁'.start = t₁.start ∧
          ∀ place, t₁'.find place = t₁.find place) := by
  obtain ⟨way, made, made', here, there, next⟩ := h.makeParent path
  unfold FileTree.write
  rw [here, there]
  cases way with
  | error e => exact ⟨_, _, _, rfl, rfl, .inl next⟩
  | ok _ =>
    dsimp only
    rw [next.target?]
    cases target : made.target? path with
    | none => exact ⟨_, _, _, rfl, rfl, .inl next⟩
    | some place =>
      refine ⟨_, _, _, rfl, rfl, ?_⟩
      by_cases same : place = loc
      · subst same
        have ok := accepts_of_target? target
        refine .inr ⟨rfl, resolve_put_target target content, ?_, fun elsewhere => ?_⟩
        · rw [start_put, start_put, next.start]
        rw [find_put ok, find_put ((next.accepts_iff place).2 ok)]
        by_cases away : elsewhere = place
        · rw [if_pos away, if_pos away]
        · rw [if_neg away, if_neg away, next.elsewhere elsewhere away]
      · exact .inl (next.put same _)

end SameBut

/-- **Two writes of different contents come to the same.** If they fail then they leave the same
    tree, and else two that are the same but for the file that was written. -/
theorem write_contents (t : FileTree) (path c c' : Bytes) :
    (∃ e t₁, t.write path c = (.error e, t₁) ∧ t.write path c' = (.error e, t₁)) ∨
      ∃ loc t₁ t₁', t.write path c = (.ok (), t₁) ∧ t.write path c' = (.ok (), t₁') ∧
        t₁.resolve path = .ok loc ∧ t₁'.resolve path = .ok loc ∧ SameBut loc c c' t₁ t₁' := by
  unfold write
  rcases t.makeParent path with ⟨e | _, made⟩
  · exact .inl ⟨_, _, rfl, rfl⟩
  dsimp only
  cases target : made.target? path with
  | none => exact .inl ⟨_, _, rfl, rfl⟩
  | some loc =>
    have ok := accepts_of_target? target
    refine .inr ⟨loc, _, _, rfl, rfl, resolve_put_target target c, resolve_put_target target c',
      ?_, ?_, ?_, fun place away => ?_⟩
    · rw [start_put, start_put]
    · rw [find_put ok, if_pos rfl]
    · rw [find_put ok, if_pos rfl]
    · rw [find_put ok, find_put ok, if_neg away, if_neg away]

end PackedInts.FileTree
