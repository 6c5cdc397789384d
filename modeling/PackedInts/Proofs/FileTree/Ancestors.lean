import Mathlib
import PackedInts.FileTree.Path

/-!
# The ancestors of a path

The parent of a path begins where the path begins, and it has the path's names but for the last; a slash
at the end is all that is taken off where there is one. So the parent, its parent and so on name the
places that one passes on the way to what the path names.

* `Path.parent_cases`, `Path.split_parent` -- a path is its parent, a run of slashes and the rest;
* `Path.isAbsolute_parent` -- a path and its parent begin at the same place;
* `Path.names_split` -- the names of a text that is made in this way;
* `Path.names_visible_parent` -- what a look-up of the parent passes, a look-up of the path passes too;
* `Path.IsAncestor` -- the parent of a path, the parent of that, and so on;
* `Path.exists_ancestor` -- every place on the way is named by an ancestor;
* `Path.IsPlain` -- a path that goes neither round nor up.
-/

namespace PackedInts

/-! ## 1. Zero bytes -/

/-- What stands behind a zero byte does not show. -/
theorem beforeZero_append_of_mem {left : Bytes} (zero : 0 ∈ left) (right : Bytes) :
    beforeZero (left ++ right) = beforeZero left := by
  induction left with
  | nil => exact absurd zero List.not_mem_nil
  | cons b left ih =>
    unfold beforeZero at ih ⊢
    by_cases here : b = 0
    · simp [here]
    · have later : 0 ∈ left := (List.mem_cons.1 zero).resolve_left fun same => here same.symm
      simp [here, ih later]

/-- Text without a zero byte shows in front of any other. -/
theorem beforeZero_append_of_not_mem {left : Bytes} (visible : 0 ∉ left) (right : Bytes) :
    beforeZero (left ++ right) = left ++ beforeZero right := by
  have nonzero : ∀ b ∈ left, (b != 0) = true := by
    intro b member
    simpa using fun zero : b = 0 => visible (zero ▸ member)
  unfold beforeZero
  rw [List.takeWhile_append_of_pos nonzero]

namespace Path

variable {path dir a : Bytes} {p : List Name}

/-! ## 2. The last run of slashes -/

/-- What is left when all in front of a byte is dropped begins with that byte. -/
theorem dropWhile_ne_cases (b : UInt8) (text : Bytes) :
    text.dropWhile (· != b) = [] ∨ ∃ others, text.dropWhile (· != b) = b :: others := by
  induction text with
  | nil => exact .inl rfl
  | cons c text ih =>
    by_cases same : c = b
    · exact .inr ⟨text, by rw [same, List.dropWhile_cons_of_neg (by simp)]⟩
    · rw [List.dropWhile_cons_of_pos (by simpa using same)]
      exact ih

/-- A path is what stands before its last run of slashes, that run and the rest. Without a slash it is
    the rest alone. -/
theorem split_beforeLastSlashes (path : Bytes) : ∃ n last,
    path = beforeLastSlashes path ++ List.replicate n slash ++ last ∧
      (n = 0 → beforeLastSlashes path = []) ∧ ∀ b ∈ last, b ≠ slash := by
  let back := path.reverse.dropWhile (· != slash)
  let slashes := back.takeWhile (· == slash)
  have split : path =
      beforeLastSlashes path ++ slashes.reverse ++
        (path.reverse.takeWhile (· != slash)).reverse := by
    unfold beforeLastSlashes
    rw [← List.reverse_append, List.takeWhile_append_dropWhile, ← List.reverse_append,
      List.takeWhile_append_dropWhile, List.reverse_reverse]
  have run : slashes.reverse = List.replicate slashes.length slash := by
    refine List.eq_replicate_iff.2 ⟨List.length_reverse, fun b member => ?_⟩
    simpa using List.mem_takeWhile_imp (List.mem_reverse.1 member)
  rw [run] at split
  refine ⟨slashes.length, _, split, fun no_run => ?_, fun b member => ?_⟩
  · rcases dropWhile_ne_cases slash path.reverse with nothing | ⟨others, begins⟩
    · unfold beforeLastSlashes
      rw [nothing]
      rfl
    · have counted : slashes = slash :: others.takeWhile (· == slash) := by
        show (path.reverse.dropWhile (· != slash)).takeWhile (· == slash) = _
        rw [begins, List.takeWhile_cons_of_pos (by simp)]
      rw [counted] at no_run
      cases no_run
  · simpa using List.mem_takeWhile_imp (List.mem_reverse.1 member)

theorem endsInSlash_beforeLastSlashes (path : Bytes) :
    endsInSlash (beforeLastSlashes path) = false := by
  have first := List.head?_dropWhile_not (· == slash) (path.reverse.dropWhile (· != slash))
  unfold endsInSlash beforeLastSlashes
  rw [List.getLast?_reverse]
  cases shown : ((path.reverse.dropWhile (· != slash)).dropWhile (· == slash)).head? with
  | none => rfl
  | some b =>
    rw [shown] at first
    simpa using first

/-! ## 3. Parents -/

/-- **What the parent of a path is**: the path itself where that is slashes only, or the root, or what
    stands before the last run of slashes. -/
theorem parent_cases (path : Bytes) :
    (∃ m, path = List.replicate m slash) ∧ parent path = path ∨
      isAbsolute path = true ∧ beforeLastSlashes path = [] ∧ parent path = [slash] ∨
        ¬ (isAbsolute path = true ∧ beforeLastSlashes path = []) ∧
          parent path = beforeLastSlashes path := by
  unfold parent
  by_cases only : path.all (· == slash) = true
  · rw [if_pos only]
    refine .inl ⟨⟨path.length, List.eq_replicate_iff.2 ⟨rfl, fun b member => ?_⟩⟩, rfl⟩
    exact beq_iff_eq.1 (List.all_eq_true.1 only b member)
  rw [if_neg only]
  by_cases top : isAbsolute path = true ∧ beforeLastSlashes path = []
  · rw [if_pos top]
    exact .inr (.inl ⟨top.1, top.2, rfl⟩)
  · rw [if_neg top]
    exact .inr (.inr ⟨top, rfl⟩)

/-- **A path is its parent, a run of slashes and the rest.** The run is only missing where the parent is
    slashes only. -/
theorem split_parent (path : Bytes) : ∃ n last,
    path = parent path ++ List.replicate n slash ++ last ∧
      (n = 0 → ∃ m, parent path = List.replicate m slash) ∧ ∀ b ∈ last, b ≠ slash := by
  obtain ⟨n, last, split, alone, solid⟩ := split_beforeLastSlashes path
  rcases parent_cases path with ⟨slashes, same⟩ | ⟨absolute, nothing, top⟩ | ⟨-, before⟩
  · rw [same]
    exact ⟨0, [], by simp, fun _ => slashes, by simp⟩
  · rw [top]
    rw [nothing, List.nil_append] at split
    cases n with
    | zero =>
      -- the path would be the rest alone, which has no slash
      have first : slash ∈ path := List.mem_of_head? (beq_iff_eq.1 absolute)
      rw [List.replicate_zero, List.nil_append] at split
      exact absurd rfl (solid slash (split ▸ first))
    | succ n => exact ⟨n, last, split, fun _ => ⟨1, rfl⟩, solid⟩
  · rw [before]
    exact ⟨n, last, split, fun no_run => ⟨0, alone no_run⟩, solid⟩

theorem parent_prefix_self (path : Bytes) : parent path <+: path := by
  obtain ⟨n, last, split, -, -⟩ := split_parent path
  exact ⟨List.replicate n slash ++ last, by rw [← List.append_assoc, ← split]⟩

theorem isAbsolute_of_prefix (front : dir <+: path) (nonempty : dir ≠ []) :
    isAbsolute dir = isAbsolute path := by
  obtain ⟨rest, rfl⟩ := front
  unfold isAbsolute
  rw [List.head?_append_of_ne_nil dir nonempty]

/-- **A path and its parent begin at the same place.** -/
theorem isAbsolute_parent (path : Bytes) : isAbsolute (parent path) = isAbsolute path := by
  by_cases none : parent path = []
  · rcases parent_cases path with ⟨-, same⟩ | ⟨-, -, top⟩ | ⟨other, before⟩
    · rw [same]
    · cases none.symm.trans top
    · have relative : isAbsolute path = false := Bool.eq_false_iff.2 fun absolute =>
        other ⟨absolute, before.symm.trans none⟩
      rw [none, relative]
      rfl
  · exact isAbsolute_of_prefix (parent_prefix_self path) none

/-! ## 4. Names -/

/-- Slashes in front belong to no name. -/
theorem names_replicate_append (n : Nat) (last : Bytes) :
    names (List.replicate n slash ++ last) = names last := by
  induction n with
  | zero => rfl
  | succ n ih =>
    rw [List.replicate_succ, List.cons_append, names, words_cons_separator (by simp)]
    exact ih

theorem names_replicate (n : Nat) : names (List.replicate n slash) = [] := by
  rw [← List.append_nil (List.replicate n slash)]
  exact names_replicate_append n []

/-- **The names on both sides of a run of slashes.** -/
theorem names_split {n : Nat} (alone : n = 0 → ∃ m, dir = List.replicate m slash) (last : Bytes) :
    names (dir ++ List.replicate n slash ++ last) = names dir ++ names last := by
  cases n with
  | zero =>
    obtain ⟨m, rfl⟩ := alone rfl
    rw [List.replicate_zero, List.append_nil, names_replicate_append, names_replicate,
      List.nil_append]
  | succ n =>
    rw [List.append_assoc, List.replicate_succ, List.cons_append, names,
      words_append_separator (by simp)]
    exact congrArg (names dir ++ ·) (names_replicate_append n last)

/-- A parent with a name does not end in a slash. -/
theorem endsInSlash_parent (named : names (parent path) ≠ []) : endsInSlash (parent path) = false := by
  rcases parent_cases path with ⟨⟨m, slashes⟩, same⟩ | ⟨-, -, top⟩ | ⟨-, before⟩
  · rw [same, slashes, names_replicate] at named
    exact absurd rfl named
  · rw [top] at named
    exact absurd (names_replicate 1) named
  · rw [before]
    exact endsInSlash_beforeLastSlashes path

/-- **A path with a name, and without a slash at its end, has one name more than its parent.** -/
theorem names_eq_parent_append (named : names path ≠ []) (shut : endsInSlash path = false) :
    ∃ last, names path = names (parent path) ++ [last] := by
  obtain ⟨n, last, split, alone, solid⟩ := split_parent path
  have nonempty : last ≠ [] := by
    rintro rfl
    rw [List.append_nil] at split
    cases n with
    | zero =>
      obtain ⟨m, slashes⟩ := alone rfl
      rw [List.replicate_zero, List.append_nil, slashes] at split
      exact named (split ▸ names_replicate m)
    | succ n =>
      unfold endsInSlash at shut
      rw [split, List.replicate_succ', ← List.append_assoc, List.getLast?_concat] at shut
      exact absurd shut (by decide)
  refine ⟨last, ?_⟩
  calc names path = names (parent path ++ List.replicate n slash ++ last) := by rw [← split]
    _ = names (parent path) ++ names last := names_split alone last
    _ = names (parent path) ++ [last] := by
        rw [show names last = [last] from words_of_forall_not nonempty fun b member => by
          simpa using solid b member]

theorem names_parent_prefix_names (path : Bytes) : names (parent path) <+: names path := by
  obtain ⟨n, last, split, alone, -⟩ := split_parent path
  exact ⟨names last, by rw [← names_split alone last, ← split]⟩

/-- A zero byte in the parent hides the rest of the path. -/
theorem visible_of_zero_mem_parent (zero : 0 ∈ parent path) : visible path = visible (parent path) := by
  obtain ⟨rest, split⟩ := parent_prefix_self path
  conv_lhs => rw [← split]
  exact beforeZero_append_of_mem zero rest

/-- **What a look-up of the parent passes, a look-up of the path passes too.** -/
theorem names_visible_parent (path : Bytes) :
    names (visible (parent path)) <+: names (visible path) := by
  obtain ⟨n, last, split, alone, -⟩ := split_parent path
  by_cases zero : 0 ∈ parent path
  · rw [visible_of_zero_mem_parent zero]
  · have run : 0 ∉ List.replicate n slash := fun member =>
      absurd (List.eq_of_mem_replicate member) (by decide)
    have front : 0 ∉ parent path ++ List.replicate n slash := fun member =>
      (List.mem_append.1 member).elim zero run
    have shown : visible path = parent path ++ List.replicate n slash ++ visible last := by
      conv_lhs => rw [split]
      exact beforeZero_append_of_not_mem front last
    rw [visible_eq_self zero, shown, names_split alone]
    exact List.prefix_append _ _

/-! ## 5. Ancestors -/

/-- The parent of a path, the parent of that, and so on. -/
inductive IsAncestor (path : Bytes) : Bytes → Prop
  | nearest : IsAncestor path (parent path)
  | further {a : Bytes} : IsAncestor path a → IsAncestor path (parent a)

theorem IsAncestor.prefix_parent (h : IsAncestor path a) : a <+: parent path := by
  induction h with
  | nearest => exact List.prefix_rfl
  | further _ ih => exact (parent_prefix_self _).trans ih

/-- **A path and its ancestors begin at the same place.** -/
theorem IsAncestor.isAbsolute_eq (h : IsAncestor path a) : isAbsolute a = isAbsolute path := by
  induction h with
  | nearest => exact isAbsolute_parent path
  | further _ ih => exact (isAbsolute_parent _).trans ih

theorem IsAncestor.endsInSlash_eq_false (h : IsAncestor path a) (named : names a ≠ []) :
    endsInSlash a = false := by
  cases h with
  | nearest => exact endsInSlash_parent named
  | further _ => exact endsInSlash_parent named

theorem IsAncestor.names_prefix_parent (h : IsAncestor path a) : names a <+: names (parent path) := by
  induction h with
  | nearest => exact List.prefix_rfl
  | further _ ih => exact (names_parent_prefix_names _).trans ih

/-- **A look-up of the path passes what an ancestor names.** -/
theorem IsAncestor.names_visible_prefix_parent (h : IsAncestor path a) :
    names (visible a) <+: names (visible (parent path)) := by
  induction h with
  | nearest => exact List.prefix_rfl
  | further _ ih => exact (names_visible_parent _).trans ih

/-- The names in front of an ancestor are those of a further one. -/
theorem IsAncestor.exists_of_prefix (h : IsAncestor path a) (front : p <+: names a)
    (nonempty : p ≠ []) : ∃ b, IsAncestor path b ∧ names b = p := by
  induction known : names a using List.reverseRecOn generalizing a with
  | nil =>
    rw [known] at front
    exact absurd (List.prefix_nil.1 front) nonempty
  | append_singleton names_above last ih =>
    have named : names a ≠ [] := by
      rw [known]
      exact List.append_ne_nil_of_right_ne_nil _ (List.cons_ne_nil last [])
    obtain ⟨last', above⟩ := names_eq_parent_append named (h.endsInSlash_eq_false named)
    have same : names_above = names (parent a) :=
      List.append_inj_left' (known.symm.trans above) rfl
    rw [above] at front
    rcases List.prefix_concat_iff.1 front with whole | shorter
    · exact ⟨a, h, above.trans whole.symm⟩
    · exact ih h.further shorter same.symm

/-- **Every place on the way is named by an ancestor.** -/
theorem exists_ancestor (front : p <+: names (parent path)) (nonempty : p ≠ []) :
    ∃ a, IsAncestor path a ∧ names a = p :=
  IsAncestor.nearest.exists_of_prefix front nonempty

/-- A path that goes neither round nor up: no name in it is one of a directory for itself or for the
    one above it. -/
def IsPlain (path : Bytes) : Prop :=
  ∀ name ∈ names path, name ≠ selfName ∧ name ≠ parentName

instance (path : Bytes) : Decidable (IsPlain path) :=
  inferInstanceAs (Decidable (∀ name ∈ names path, _))

end Path

end PackedInts
