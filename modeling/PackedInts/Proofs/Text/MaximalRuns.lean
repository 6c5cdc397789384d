import Mathlib
import PackedInts.Text.Words

/-!
# The words of a text are its maximal runs

A text falls into gaps, made of separators, and runs that hold none. A run that is not empty, with a
gap or nothing at all on either side, is as long as it can be; every text has one list of these, and
its words are that list.

* `MaximalRuns` -- a text and its maximal runs, from left to right;
* `exists_maximalRuns` -- every text has such a list;
* `words_append_run` -- a run in front is the first word;
* **`maximalRuns_iff`** -- the words of a text are its maximal runs, and these only.
-/

namespace PackedInts

/-- A text and its maximal runs of bytes that are no separators. Whatever follows a run starts with a
    separator, so no run can be made longer. -/
inductive MaximalRuns (separators : Bytes) : Bytes → List Bytes → Prop
  /-- Separators only. -/
  | gap {blank : Bytes} (all : ∀ b ∈ blank, b ∈ separators) : MaximalRuns separators blank []
  /-- A run behind separators, and what follows it. -/
  | run {blank word rest : Bytes} {others : List Bytes} (all : ∀ b ∈ blank, b ∈ separators)
    (nonempty : word ≠ []) (solid : ∀ b ∈ word, b ∉ separators)
    (ended : ∀ b, rest.head? = some b → b ∈ separators) (behind : MaximalRuns separators rest others) :
    MaximalRuns separators (blank ++ word ++ rest) (word :: others)

namespace MaximalRuns

variable {separators text : Bytes} {runs : List Bytes} {b : UInt8}

/-- A separator in front changes no run. -/
theorem cons_separator (h : MaximalRuns separators text runs) (separator : b ∈ separators) :
    MaximalRuns separators (b :: text) runs := by
  cases h with
  | gap all => exact .gap (List.forall_mem_cons.2 ⟨separator, all⟩)
  | run all nonempty solid ended behind =>
    exact .run (List.forall_mem_cons.2 ⟨separator, all⟩) nonempty solid ended behind

/-- Any other byte makes the first run longer if that stands in front, and else is a run of its
    own. -/
theorem cons_solid (h : MaximalRuns separators text runs) (solid : b ∉ separators) :
    ∃ runs, MaximalRuns separators (b :: text) runs := by
  have nothing : ∀ c ∈ ([] : Bytes), c ∈ separators := fun _ member => absurd member List.not_mem_nil
  have alone : ∀ c ∈ [b], c ∉ separators := List.forall_mem_singleton.2 solid
  cases h with
  | gap all =>
    exact ⟨_, .run nothing (List.cons_ne_nil b []) alone
      (fun c first => all c (List.mem_of_mem_head? first)) (.gap all)⟩
  | @run blank word rest others all nonempty inside ended behind =>
    cases blank with
    | nil =>
      exact ⟨_, .run nothing (List.cons_ne_nil b word) (List.forall_mem_cons.2 ⟨solid, inside⟩)
        ended behind⟩
    | cons c blank =>
      refine ⟨_, .run nothing (List.cons_ne_nil b []) alone (fun d first => ?_)
        (.run all nonempty inside ended behind)⟩
      obtain rfl : c = d := Option.some.inj first
      exact all c (List.mem_cons_self ..)

end MaximalRuns

/-- Every text has maximal runs. -/
theorem exists_maximalRuns (separators text : Bytes) : ∃ runs, MaximalRuns separators text runs := by
  induction text with
  | nil => exact ⟨[], .gap fun _ member => absurd member List.not_mem_nil⟩
  | cons b text ih =>
    obtain ⟨runs, maximal⟩ := ih
    by_cases separator : b ∈ separators
    · exact ⟨runs, maximal.cons_separator separator⟩
    · exact maximal.cons_solid separator

section Words

variable {separates : UInt8 → Bool}

/-- Separators in front belong to no word. -/
theorem words_append_gap {blank : Bytes} (all : ∀ b ∈ blank, separates b = true) (text : Bytes) :
    words separates (blank ++ text) = words separates text := by
  induction blank with
  | nil => rfl
  | cons b blank ih =>
    obtain ⟨first, others⟩ := List.forall_mem_cons.1 all
    rw [List.cons_append, words_cons_separator first, ih others]

/-- **A run in front is the first word**, if a separator or nothing follows it. -/
theorem words_append_run {word rest : Bytes} (nonempty : word ≠ [])
    (solid : ∀ b ∈ word, separates b = false)
    (ended : ∀ b, rest.head? = some b → separates b = true) :
    words separates (word ++ rest) = word :: words separates rest := by
  cases rest with
  | nil => rw [List.append_nil, words_of_forall_not nonempty solid, words_nil]
  | cons b rest =>
    have separator := ended b rfl
    rw [words_append_separator separator, words_of_forall_not nonempty solid,
      words_cons_separator separator]
    rfl

variable {separators : Bytes} (meaning : ∀ b, separates b = true ↔ b ∈ separators)
include meaning

/-- A list of maximal runs holds the words. -/
theorem MaximalRuns.words_eq {text : Bytes} {runs : List Bytes}
    (h : MaximalRuns separators text runs) : words separates text = runs := by
  induction h with
  | @gap blank all =>
    have none := words_append_gap (fun b member => (meaning b).2 (all b member)) []
    rwa [List.append_nil, words_nil] at none
  | @run blank word rest others all nonempty solid ended behind ih =>
    have open_ended : ∀ b ∈ word, separates b = false := fun b member =>
      Bool.eq_false_of_not_eq_true fun separator => solid b member ((meaning b).1 separator)
    rw [List.append_assoc, words_append_gap fun b member => (meaning b).2 (all b member),
      words_append_run nonempty open_ended fun b first => (meaning b).2 (ended b first), ih]

/-- **The words of a text are its maximal runs.** -/
theorem maximalRuns_words (text : Bytes) : MaximalRuns separators text (words separates text) := by
  obtain ⟨runs, maximal⟩ := exists_maximalRuns separators text
  rw [maximal.words_eq meaning]
  exact maximal

/-- **A list of maximal runs is the list of words.** -/
theorem maximalRuns_iff {text : Bytes} {runs : List Bytes} :
    MaximalRuns separators text runs ↔ runs = words separates text := by
  constructor
  · intro maximal
    exact (maximal.words_eq meaning).symm
  · rintro rfl
    exact maximalRuns_words meaning text

end Words

end PackedInts
