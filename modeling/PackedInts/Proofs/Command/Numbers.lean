import Mathlib
import PackedInts.Proofs.Command.Arguments
import PackedInts.Proofs.Command.Outcome

/-!
# Numbers among the arguments

The option for the width and the one for the count may stand behind any others. What they are given is
taken as the number that it spells, or else the run ends there: no later argument is looked at, and the
tree is left alone.

* `GoesOn`, `goesOn_iff` -- the reading goes on behind an option exactly if its value is taken;
* `readOptions_behind`, `run_of_refused` -- an option behind others, and one that is refused;
* **`run_number_argument`** -- what becomes of a run with such an argument.
-/

namespace PackedInts

/-! ## 1. An option behind others -/

section Behind

variable {τ σ : Type} {codec : Base64.Codec τ σ} {command name a : Bytes} {verb : Verb} {front back : List Bytes} {o o' : Options}
  {setting : Setting} {e : CommandError}

/-- The reading goes on behind an option and its value with these options, whatever comes next. -/
def GoesOn (front : List Bytes) (name a : Bytes) (o : Options) : Prop :=
  ∀ back, readOptions .none (front ++ name :: a :: back) = readOptions o back

/-- **An option behind others is set among them.** -/
theorem readOptions_behind (read : readOptions .none front = .ok (some o))
    (named : Setting.ofArgument? name = some setting) (a : Bytes) (back : List Bytes) :
    readOptions .none (front ++ name :: a :: back) = (o.set setting a).bind (readOptions · back) := by
  rw [readOptions_append read, readOptions_setting named]

/-- **The reading goes on exactly if the value is taken.** -/
theorem goesOn_iff (read : readOptions .none front = .ok (some o))
    (named : Setting.ofArgument? name = some setting) :
    GoesOn front name a o' ↔ o.set setting a = .ok o' := by
  unfold GoesOn
  simp only [readOptions_behind read named]
  constructor
  · intro next
    have ended := next []
    cases set : o.set setting a with
    | error e =>
      rw [set] at ended
      cases ended
    | ok taken =>
      rw [set] at ended
      cases ended
      rfl
  · intro set back
    rw [set]
    rfl

/-- **A run ends with the first value that is refused**, and leaves the tree alone. -/
theorem run_of_refused (command_named : Verb.ofArgument? command = some verb)
    (working : verb ≠ .help) (read : readOptions .none front = .ok (some o))
    (named : Setting.ofArgument? name = some setting) (refused : o.set setting a = .error e)
    (back : List Bytes) (t : FileTree) :
    runWith codec (command :: (front ++ name :: a :: back)) t = (.failure [] e, t) := by
  have stopped : readOptions .none (front ++ name :: a :: back) = .error e := by
    rw [readOptions_behind read named, refused]
    rfl
  refine runWith_of_parse_error ?_ t
  rw [parse_of_verb command_named working, stopped]
  rfl

theorem Options.set_width_eq_ok_iff {w : BitWidth} :
    o.set .width a = .ok { o with width := some w } ↔ widthOfArgument a = .ok w := by
  unfold Options.set
  dsimp only
  cases widthOfArgument a with
  | error e => exact ⟨nofun, nofun⟩
  | ok w' => simp [Except.map]

theorem Options.set_count_eq_ok_iff {n : UInt64} :
    o.set .count a = .ok { o with count := some n } ↔ countOfArgument a = .ok n := by
  unfold Options.set
  dsimp only
  cases countOfArgument a with
  | error e => exact ⟨nofun, nofun⟩
  | ok n' => simp [Except.map]

theorem Options.set_width_of_error (refused : widthOfArgument a = .error e) :
    o.set .width a = .error e := by
  unfold Options.set
  dsimp only
  rw [refused]
  rfl

theorem Options.set_count_of_error (refused : countOfArgument a = .error e) :
    o.set .count a = .error e := by
  unfold Options.set
  dsimp only
  rw [refused]
  rfl

/-! ## 2. A run -/

/-- **Numbers among the arguments are taken as they are written or not at all.** Behind any arguments
    that do not end the reading, the value of an option for the width is taken exactly if it spells the
    width in decimal digits. If it spells a larger number of 64 bits, the run fails and names that
    number, or the largest of 32 bits if that is smaller; in every other case it fails and names the
    text. The value of an option for the count is taken exactly if it spells a number of 64 bits, as
    that number, and else the run fails and names the text. -/
theorem run_number_argument (codec : Base64.Codec τ σ) (command_named : Verb.ofArgument? command = some verb)
    (working : verb ≠ .help) (read : readOptions .none front = .ok (some o)) (a : Bytes) :
    (∀ name, name = ascii "--width" ∨ name = ascii "-w" →
      (∀ w : BitWidth, GoesOn front name a { o with width := some w } ↔ Numeral.Spells a w.bits) ∧
      (∀ v, Numeral.Spells a v → 8 < v → v < 2 ^ 64 → ∀ back t, ∃ report,
        runWith codec (command :: (front ++ name :: a :: back)) t = (report, t) ∧
        report.exit = 1 ∧ report.stdout = [] ∧
        report.stderr = ascii "Error: " ++ (ascii "Unsupported bit width "
          ++ Numeral.decimal (min v (2 ^ 32 - 1)) ++ ascii ": only widths 0 to 8 are supported")
          ++ ascii "\n") ∧
      ((¬ ∃ v < 2 ^ 64, Numeral.Spells a v) → ∀ back t, ∃ report,
        runWith codec (command :: (front ++ name :: a :: back)) t = (report, t) ∧
        report.exit = 1 ∧ report.stdout = [] ∧
        report.stderr = ascii "Error: " ++ (ascii "Invalid bit width: " ++ a) ++ ascii "\n")) ∧
    ∀ name, name = ascii "--count" ∨ name = ascii "-n" →
      (∀ n : UInt64, GoesOn front name a { o with count := some n }
        ↔ Numeral.Spells a n.toNat) ∧
      ((¬ ∃ v < 2 ^ 64, Numeral.Spells a v) → ∀ back t, ∃ report,
        runWith codec (command :: (front ++ name :: a :: back)) t = (report, t) ∧
        report.exit = 1 ∧ report.stdout = [] ∧
        report.stderr = ascii "Error: " ++ (ascii "Invalid value count: " ++ a) ++ ascii "\n") := by
  refine ⟨fun name spelled_name => ?_, fun name spelled_name => ?_⟩
  · have named : Setting.ofArgument? name = some .width := by
      rcases spelled_name with rfl | rfl <;> decide
    refine ⟨fun w => ?_, fun v spelled wide small back t => ?_, fun unspelled back t => ?_⟩
    · rw [goesOn_iff read named, Options.set_width_eq_ok_iff, widthOfArgument_eq_ok_iff]
    · obtain ⟨width, toNat_width, refused⟩ := widthOfArgument_of_wide spelled wide small
      have unset := Options.set_width_of_error (o := o) refused
      refine ⟨_, run_of_refused command_named working read named unset back t, rfl, rfl, ?_⟩
      rw [← toNat_width]
      rfl
    · have unset := Options.set_width_of_error (o := o) (widthOfArgument_of_not_spells unspelled)
      exact ⟨_, run_of_refused command_named working read named unset back t, rfl, rfl, rfl⟩
  · have named : Setting.ofArgument? name = some .count := by
      rcases spelled_name with rfl | rfl <;> decide
    refine ⟨fun n => ?_, fun unspelled back t => ?_⟩
    · rw [goesOn_iff read named, Options.set_count_eq_ok_iff, countOfArgument_eq_ok_iff]
    · have unset := Options.set_count_of_error (o := o) (countOfArgument_of_not_spells unspelled)
      exact ⟨_, run_of_refused command_named working read named unset back t, rfl, rfl, rfl⟩

end Behind

/-- The largest width with zeros in front; a number that 32 bits would cut down to three; the first
    number beyond 64 bits and the last one in front of it; and a number with a sign. -/
theorem run_number_argument_at_the_limits :
    ∃ o, readOptions .none [ascii "-i", ascii "-w"] = .ok (some o) ∧
      GoesOn [ascii "-i", ascii "-w"] (ascii "--width") (ascii "0008")
        { o with width := some ⟨8, by decide⟩ } ∧
      (∀ back t, ∃ report, run (ascii "Unpack" :: ([ascii "-i", ascii "-w"]
          ++ ascii "-w" :: ascii "4294967299" :: back)) t = (report, t) ∧ report.exit = 1 ∧
        report.stderr = ascii
          "Error: Unsupported bit width 4294967295: only widths 0 to 8 are supported\n") ∧
      (∀ back t, ∃ report, run (ascii "Unpack" :: ([ascii "-i", ascii "-w"]
          ++ ascii "-w" :: ascii "18446744073709551616" :: back)) t = (report, t) ∧
        report.exit = 1 ∧
        report.stderr = ascii "Error: Invalid bit width: 18446744073709551616\n") ∧
      GoesOn [ascii "-i", ascii "-w"] (ascii "-n") (ascii "18446744073709551615")
        { o with count := some 18446744073709551615 } ∧
      ∀ back t, ∃ report, run (ascii "Unpack" :: ([ascii "-i", ascii "-w"]
          ++ ascii "--count" :: ascii "+1" :: back)) t = (report, t) ∧ report.exit = 1 ∧
        report.stderr = ascii "Error: Invalid value count: +1\n" := by
  have command_named : Verb.ofArgument? (ascii "Unpack") = some .unpack := by decide
  obtain ⟨o, read⟩ : ∃ o, readOptions .none [ascii "-i", ascii "-w"] = .ok (some o) :=
    ⟨⟨none, none, ascii "-w", [], false⟩, by decide⟩
  have argument (a : Bytes) := run_number_argument Base64.standardCodec command_named Verb.noConfusion
    read a
  have beyond : ¬ ∃ v < 2 ^ 64, Numeral.Spells (ascii "18446744073709551616") v := by
    rintro ⟨v, small, spelled⟩
    have number : Numeral.value (ascii "18446744073709551616") = 2 ^ 64 := by decide +kernel
    exact absurd ((Numeral.spells_iff.1 spelled).2.symm.trans number) (Nat.ne_of_lt small)
  have signed : ¬ ∃ v < 2 ^ 64, Numeral.Spells (ascii "+1") v := by
    rintro ⟨v, -, spelled⟩
    have plus := spelled.digits 43 (by decide)
    exact absurd plus (by decide)
  refine ⟨o, read, ?_, fun back t => ?_, fun back t => ?_, ?_, fun back t => ?_⟩
  · exact (((argument _).1 _ (.inl rfl)).1 _).2 (Numeral.spells_iff.2 (by decide +kernel))
  · obtain ⟨report, ran, exit_one, -, stderr⟩ := ((argument (ascii "4294967299")).1 _ (.inr rfl)).2.1
      4294967299 (Numeral.spells_iff.2 (by decide +kernel)) (by decide) (by decide) back t
    exact ⟨report, ran, exit_one, stderr.trans (by decide +kernel)⟩
  · obtain ⟨report, ran, exit_one, -, stderr⟩ := ((argument _).1 _ (.inr rfl)).2.2 beyond back t
    exact ⟨report, ran, exit_one, stderr.trans (by decide +kernel)⟩
  · exact (((argument _).2 _ (.inr rfl)).1 _).2 (Numeral.spells_iff.2 (by decide +kernel))
  · obtain ⟨report, ran, exit_one, -, stderr⟩ := ((argument _).2 _ (.inl rfl)).2 signed back t
    exact ⟨report, ran, exit_one, stderr.trans (by decide +kernel)⟩

end PackedInts
