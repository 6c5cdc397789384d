import PackedInts.Text.Bytes

/-!
# Words

The words of a text are its maximal runs of bytes that are no separators.

* `words` -- the words, from left to right.

Main statements: `words_append_separator`, a text falls apart at every separator;
`words_of_forall_not`, a run without separators is one word.
-/

namespace PackedInts

variable {separates : UInt8 → Bool}

/-- The maximal runs of bytes that do not separate. -/
def words (separates : UInt8 → Bool) (text : Bytes) : List Bytes :=
  (text.splitOnP separates).filter fun word => !word.isEmpty

@[simp] theorem words_nil : words separates [] = [] := by
  simp [words, List.splitOnP_nil]

/-- **A text falls apart at every separator.** -/
theorem words_append_separator {b : UInt8} (h : separates b = true) (left right : Bytes) :
    words separates (left ++ b :: right) = words separates left ++ words separates right := by
  rw [words, List.splitOnP_append_cons _ _ h, List.filter_append]
  rfl

/-- A separator in front belongs to no word. -/
theorem words_cons_separator {b : UInt8} (h : separates b = true) (text : Bytes) :
    words separates (b :: text) = words separates text := by
  simpa using words_append_separator h [] text

/-- **A run without separators is one word**, unless it is empty. -/
theorem words_of_forall_not {word : Bytes} (hne : word ≠ [])
    (h : ∀ b ∈ word, separates b = false) : words separates word = [word] := by
  rw [words, List.splitOnP_eq_singleton h]
  simp [hne]

end PackedInts
