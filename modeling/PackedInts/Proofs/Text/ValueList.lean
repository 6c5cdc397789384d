import Mathlib
import PackedInts.Text.ValueList

/-!
# The values of a text, one by one

A text that parses gives one value for each of its words, and words stand apart, so a list of values is
at most half as long as its text, but for one.

* `mapM_eq_ok_iff`, `mapM_eq_error_iff` -- a list is read item by item, each item on its own, up to
  the first one that cannot be read;
* `two_mul_length_words_le` -- the number of words of a text;
* **`ValueList.two_mul_length_of_parse`** -- the number of values of a text.
-/

namespace PackedInts

/-- **A list is read item by item.** -/
theorem mapM_eq_ok_iff {α β ε : Type} {f : α → Except ε β} {xs : List α} {ys : List β} :
    xs.mapM f = .ok ys ↔ List.Forall₂ (fun x y => f x = .ok y) xs ys := by
  induction xs generalizing ys with
  | nil =>
    rw [List.mapM_nil, List.forall₂_nil_left_iff]
    exact ⟨fun h => (Except.ok.inj h).symm, fun h => congrArg Except.ok h.symm⟩
  | cons x xs ih =>
    rw [List.mapM_cons, List.forall₂_cons_left_iff]
    constructor
    · intro h
      cases first : f x with
      | error e =>
        rw [first] at h
        cases h
      | ok y =>
        rw [first] at h
        cases others : xs.mapM f with
        | error e =>
          rw [others] at h
          cases h
        | ok rest =>
          rw [others] at h
          exact ⟨y, rest, rfl, ih.1 others, (Except.ok.inj h).symm⟩
    · rintro ⟨y, rest, first, others, rfl⟩
      rw [first, ih.2 others]
      rfl

/-- **The first item that cannot be read decides the error.** -/
theorem mapM_eq_error_iff {α β ε : Type} {f : α → Except ε β} {xs : List α} {e : ε} :
    xs.mapM f = .error e ↔ ∃ front x back, xs = front ++ x :: back ∧
      (∀ y ∈ front, ∃ z, f y = .ok z) ∧ f x = .error e := by
  induction xs with
  | nil =>
    rw [List.mapM_nil]
    constructor
    · intro h
      cases h
    · rintro ⟨front, x, back, split, -⟩
      exact absurd split.symm (List.append_ne_nil_of_right_ne_nil front (List.cons_ne_nil x back))
  | cons x xs ih =>
    rw [List.mapM_cons]
    cases first : f x with
    | error e' =>
      constructor
      · intro h
        cases h
        exact ⟨[], x, xs, rfl, fun _ member => absurd member List.not_mem_nil, first⟩
      · rintro ⟨_ | ⟨y, front⟩, z, back, split, read, refused⟩
        · obtain ⟨rfl, -⟩ := List.cons.inj split
          exact congrArg Except.error (Except.error.inj (first.symm.trans refused))
        · obtain ⟨rfl, -⟩ := List.cons.inj split
          obtain ⟨v, done⟩ := read x (List.mem_cons_self ..)
          rw [first] at done
          cases done
    | ok v =>
      have others : (do let vs ← xs.mapM f; pure (v :: vs)) = .error e ↔ xs.mapM f = .error e := by
        cases xs.mapM f with
        | error e' => rfl
        | ok vs => exact ⟨nofun, nofun⟩
      refine others.trans (ih.trans ?_)
      constructor
      · rintro ⟨front, y, back, rfl, read, refused⟩
        exact ⟨x :: front, y, back, rfl, List.forall_mem_cons.2 ⟨⟨v, first⟩, read⟩, refused⟩
      · rintro ⟨_ | ⟨y, front⟩, z, back, split, read, refused⟩
        · obtain ⟨rfl, -⟩ := List.cons.inj split
          rw [first] at refused
          cases refused
        · obtain ⟨-, rfl⟩ := List.cons.inj split
          exact ⟨front, z, back, rfl, (List.forall_mem_cons.1 read).2, refused⟩

/-- Every piece of a split takes its bytes and the separator behind it, but for the last. -/
theorem sum_splitOnP (separates : UInt8 → Bool) (text : Bytes) :
    ((text.splitOnP separates).map fun piece => piece.length + 1).sum = text.length + 1 := by
  induction text with
  | nil => rfl
  | cons b text ih =>
    rw [List.splitOnP_cons_eq_if_modifyHead, List.length_cons, ← ih]
    split
    · rw [List.map_cons, List.sum_cons, List.length_nil]
      omega
    · cases pieces : text.splitOnP separates with
      | nil => exact absurd pieces (List.splitOnP_ne_nil _ _)
      | cons first others =>
        rw [List.modifyHead_cons, List.map_cons, List.map_cons, List.sum_cons, List.sum_cons,
          List.length_cons]
        omega

/-- A piece that is a word takes two bytes or more. -/
theorem two_mul_length_filter_le (pieces : List Bytes) :
    2 * (pieces.filter fun piece => !piece.isEmpty).length
      ≤ (pieces.map fun piece => piece.length + 1).sum := by
  induction pieces with
  | nil => exact Nat.le_refl 0
  | cons piece pieces ih =>
    rw [List.map_cons, List.sum_cons]
    cases piece with
    | nil =>
      rw [List.filter_cons_of_neg (by simp)]
      omega
    | cons b piece =>
      rw [List.filter_cons_of_pos (by simp), List.length_cons, List.length_cons]
      omega

/-- **Words stand apart**: two bytes for each of them, but for the separator behind the last. -/
theorem two_mul_length_words_le (separates : UInt8 → Bool) (text : Bytes) :
    2 * (words separates text).length ≤ text.length + 1 := by
  rw [← sum_splitOnP separates text]
  exact two_mul_length_filter_le (text.splitOnP separates)

/-- **A text holds at most half as many values as it has bytes**, rounded up. -/
theorem ValueList.two_mul_length_of_parse {text : Bytes} {vs : List UInt32}
    (parsed : ValueList.parse text = .ok vs) : 2 * vs.length ≤ text.length + 1 := by
  have read : List.Forall₂ _ (words separatesValues text) vs := mapM_eq_ok_iff.1 parsed
  rw [← read.length_eq]
  exact two_mul_length_words_le separatesValues text

end PackedInts
