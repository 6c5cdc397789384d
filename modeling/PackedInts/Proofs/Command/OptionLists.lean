import Mathlib
import PackedInts.Proofs.Command.Numbers

/-!
# Lists of options

Options are read from left to right, each over those before it. What is left in the end depends on the
last argument of each option only: neither the order of the options nor their number nor the name by
which each is given plays a part. An argument that stands in the place of a value is a value, also if it
looks like an option.

* `IsSpelling`, `Verb.ofArgument?_of_spelling` -- a word in any mix of capital and small letters;
* `GivenOption`, `argumentsOf` -- an option as it is given, and the arguments that give a list of them;
* `lastArgument?` -- the argument given last for an option;
* `Options.ofArguments`, `Options.set_ofArguments` -- what comes of the arguments given last, and what
  one more of them changes;
* `readOptions_argumentsOf` -- what is read off a list of options;
* **`run_of_last_arguments`** -- runs on two lists that agree in what is given last.
-/

namespace PackedInts

/-! ## 1. Words in capital and small letters -/

/-- The argument is the word, in which any letters may be capital ones. -/
def IsSpelling (word argument : Bytes) : Prop :=
  List.Forall₂ (fun letter b => b = letter ∨ b.toNat + 32 = letter.toNat) word argument

/-- The word by which a command is called. -/
def Verb.word : Verb → Bytes
  | .pack => ascii "pack"
  | .unpack => ascii "unpack"
  | .layout => ascii "layout"
  | .help => ascii "help"

theorem toLower_of_letter {letter b : UInt8} (small : 97 ≤ letter.toNat ∧ letter.toNat ≤ 122)
    (spelled : b = letter ∨ b.toNat + 32 = letter.toNat) : toLower b = letter := by
  obtain ⟨first, last⟩ := small
  unfold toLower isUpper
  rcases spelled with rfl | capital
  · have lower : ¬ (('A'.toUInt8 ≤ b && b ≤ 'Z'.toUInt8) = true) := by
      rw [Bool.and_eq_true, decide_eq_true_iff, decide_eq_true_iff, UInt8.le_iff_toNat_le,
        UInt8.le_iff_toNat_le, show 'Z'.toUInt8.toNat = 90 from rfl]
      omega
    rw [if_neg lower]
  · have upper : ('A'.toUInt8 ≤ b && b ≤ 'Z'.toUInt8) = true := by
      rw [Bool.and_eq_true, decide_eq_true_iff, decide_eq_true_iff, UInt8.le_iff_toNat_le,
        UInt8.le_iff_toNat_le, show 'A'.toUInt8.toNat = 65 from rfl,
        show 'Z'.toUInt8.toNat = 90 from rfl]
      omega
    rw [if_pos upper]
    apply UInt8.toNat_inj.1
    rw [UInt8.toNat_add, ← capital]
    exact Nat.mod_eq_of_lt (by show b.toNat + 32 < 256; omega)

/-- A word in small letters is left of its spellings. -/
theorem map_toLower_of_spelling {word argument : Bytes}
    (small : ∀ letter ∈ word, 97 ≤ letter.toNat ∧ letter.toNat ≤ 122)
    (spelled : IsSpelling word argument) : argument.map toLower = word := by
  induction spelled with
  | nil => rfl
  | cons first others ih =>
    obtain ⟨letter, rest⟩ := List.forall_mem_cons.1 small
    rw [List.map_cons, toLower_of_letter letter first, ih rest]

/-- **Every spelling of its word names a command.** -/
theorem Verb.ofArgument?_of_spelling {verb : Verb} {argument : Bytes}
    (spelled : IsSpelling verb.word argument) : Verb.ofArgument? argument = some verb := by
  have small : ∀ letter ∈ verb.word, 97 ≤ letter.toNat ∧ letter.toNat ≤ 122 := by
    cases verb <;> decide +kernel
  unfold Verb.ofArgument?
  rw [map_toLower_of_spelling small spelled]
  cases verb <;> decide

/-! ## 2. Options as they are given -/

/-- The name of an option, long or short. -/
def Setting.name (setting : Setting) (short : Bool) : Bytes :=
  if short then setting.shortName else setting.longName

theorem Setting.ofArgument?_name (setting : Setting) (short : Bool) :
    Setting.ofArgument? (setting.name short) = some setting := by
  cases setting <;> cases short <;> decide

/-- The argument is one that an option takes. -/
def Setting.Takes : Setting → Bytes → Prop
  | .width, a => ∃ v ≤ 8, Numeral.Spells a v
  | .count, a => ∃ v < 2 ^ 64, Numeral.Spells a v
  | .input, _ => True
  | .output, _ => True

/-- An option as it is given: one with a value, by its long or its short name, or the one for base64
    text. -/
inductive GivenOption
  | withValue (setting : Setting) (short : Bool) (argument : Bytes)
  | base64
  deriving DecidableEq

namespace GivenOption

/-- The arguments that give an option. -/
def arguments : GivenOption → List Bytes
  | .withValue setting short argument => [setting.name short, argument]
  | .base64 => [base64Flag]

/-- The option has a value that it takes, if it needs one. -/
def WellFormed : GivenOption → Prop
  | .withValue setting _ argument => setting.Takes argument
  | .base64 => True

/-- The argument that is given for one of the options with a value. -/
def argument? (setting : Setting) : GivenOption → Option Bytes
  | .withValue other _ argument => if other = setting then some argument else none
  | .base64 => none

end GivenOption

/-- The arguments that give a list of options. -/
def argumentsOf (options : List GivenOption) : List Bytes :=
  options.flatMap GivenOption.arguments

/-- The argument given last for one of the options with a value. -/
def lastArgument? (setting : Setting) (options : List GivenOption) : Option Bytes :=
  (options.filterMap (GivenOption.argument? setting)).getLast?

@[simp] theorem lastArgument?_nil (setting : Setting) : lastArgument? setting [] = none := rfl

theorem lastArgument?_cons (setting : Setting) (first : GivenOption) (options : List GivenOption) :
    lastArgument? setting (first :: options)
      = (lastArgument? setting options).or (first.argument? setting) := by
  unfold lastArgument?
  rw [List.filterMap_cons]
  cases first.argument? setting with
  | none => exact (Option.or_none).symm
  | some argument => rw [List.getLast?_cons, Option.or_some]

/-! ## 3. What is given last -/

/-- The options that come of the arguments given last. -/
def Options.ofArguments (given : Setting → Option Bytes) (base64 : Bool) : Options where
  width := (given .width).bind fun a => (widthOfArgument a).toOption
  count := (given .count).bind fun a => (countOfArgument a).toOption
  input := (given .input).getD []
  output := (given .output).getD []
  base64 := base64

/-- **One more argument takes the place of the one before it**, and changes nothing else. -/
theorem Options.set_ofArguments {setting : Setting} {a : Bytes} (taken : setting.Takes a)
    (given : Setting → Option Bytes) (base64 : Bool) :
    (Options.ofArguments given base64).set setting a
      = .ok (.ofArguments (Function.update given setting (some a)) base64) := by
  cases setting with
  | width =>
    obtain ⟨v, narrow, spelled⟩ := taken
    have read : widthOfArgument a = .ok ⟨v, narrow⟩ := widthOfArgument_eq_ok_iff.2 spelled
    unfold Options.set
    dsimp only
    rw [read]
    simp [Options.ofArguments, Function.update, read, Except.map, Except.toOption]
  | count =>
    obtain ⟨v, small, spelled⟩ := taken
    have word : v.toUInt64.toNat = v := Nat.mod_eq_of_lt small
    rw [← word] at spelled
    have read : countOfArgument a = .ok v.toUInt64 := countOfArgument_eq_ok_iff.2 spelled
    unfold Options.set
    dsimp only
    rw [read]
    simp [Options.ofArguments, Function.update, read, Except.map, Except.toOption]
  | input => rfl
  | output => rfl

/-- An argument counts from where it is given on. -/
theorem update_or (given : Setting → Option Bytes) (setting other : Setting) (short : Bool)
    (a : Bytes) :
    Function.update given setting (some a) other
      = ((GivenOption.withValue setting short a).argument? other).or (given other) := by
  show _ = (if setting = other then some a else none).or (given other)
  by_cases same : setting = other
  · subst same
    rw [Function.update_self, if_pos rfl, Option.some_or]
  · rw [Function.update_of_ne (Ne.symm same), if_neg same, Option.none_or]

/-- **What is read off a list of options** behind others: what comes of the arguments given last, those
    of the others counting where the list gives none. -/
theorem readOptions_argumentsOf {options : List GivenOption} (whole : ∀ g ∈ options, g.WellFormed)
    (given : Setting → Option Bytes) (base64 : Bool) :
    readOptions (.ofArguments given base64) (argumentsOf options)
      = .ok (some (.ofArguments (fun setting => (lastArgument? setting options).or (given setting))
          (base64 || decide (.base64 ∈ options)))) := by
  -- The options read so far are those that come of the arguments given last so far: this carries the
  -- induction, for any arguments given before.
  induction options generalizing given base64 with
  | nil => simp [argumentsOf]
  | cons first options ih =>
    obtain ⟨taken, others⟩ := List.forall_mem_cons.1 whole
    cases first with
    | withValue setting short a =>
      have split : argumentsOf (.withValue setting short a :: options)
          = setting.name short :: a :: argumentsOf options := rfl
      rw [split, readOptions_setting (setting.ofArgument?_name short),
        Options.set_ofArguments taken]
      show readOptions _ (argumentsOf options) = _
      rw [ih others]
      simp [lastArgument?_cons, Option.or_assoc, update_or given setting _ short]
    | base64 =>
      have split : argumentsOf (.base64 :: options) = base64Flag :: argumentsOf options := rfl
      have flagged : { Options.ofArguments given base64 with base64 := true }
          = Options.ofArguments given true := rfl
      rw [split, readOptions_base64, flagged, ih others]
      simp [lastArgument?_cons, GivenOption.argument?]

/-! ## 4. Runs -/

section Runs

variable {τ σ : Type} (codec : Base64.Codec τ σ) {options options' : List GivenOption}

/-- Runs whose arguments ask for the same are the same. -/
theorem run_congr {arguments arguments' : List Bytes}
    (same : Request.parse arguments = Request.parse arguments') (t : FileTree) :
    runWith codec arguments t = runWith codec arguments' t := by
  unfold runWith performArguments
  rw [same]

/-- A command and what is read behind it decide what is asked for. -/
theorem parse_congr {command command' : Bytes} {rest rest' : List Bytes} {verb : Verb}
    (named : Verb.ofArgument? command = some verb) (named' : Verb.ofArgument? command' = some verb)
    (same : readOptions .none rest = readOptions .none rest') :
    Request.parse (command :: rest) = Request.parse (command' :: rest') := by
  unfold Request.parse
  dsimp only
  rw [named, named', same]
  cases verb <;> rfl

/-- What comes of the arguments given last is what they spell. -/
theorem Options.width_ofArguments {given : Setting → Option Bytes} {base64 : Bool} {w : BitWidth} :
    (Options.ofArguments given base64).width = some w
      ↔ ∃ a, given .width = some a ∧ Numeral.Spells a w.bits := by
  show ((given .width).bind fun a => (widthOfArgument a).toOption) = some w ↔ _
  simp only [Option.bind_eq_some_iff, ← widthOfArgument_eq_ok_iff]
  refine exists_congr fun a => and_congr_right fun _ => ?_
  cases widthOfArgument a <;> simp [Except.toOption]

theorem Options.count_ofArguments {given : Setting → Option Bytes} {base64 : Bool} {n : UInt64} :
    (Options.ofArguments given base64).count = some n
      ↔ ∃ a, given .count = some a ∧ Numeral.Spells a n.toNat := by
  show ((given .count).bind fun a => (countOfArgument a).toOption) = some n ↔ _
  simp only [Option.bind_eq_some_iff, ← countOfArgument_eq_ok_iff]
  refine exists_congr fun a => and_congr_right fun _ => ?_
  cases countOfArgument a <;> simp [Except.toOption]

/-- What is read off a list of options from the start. -/
theorem readOptions_none_argumentsOf (whole : ∀ g ∈ options, g.WellFormed) :
    readOptions .none (argumentsOf options)
      = .ok (some (.ofArguments (lastArgument? · options) (decide (.base64 ∈ options)))) := by
  have start : Options.none = .ofArguments (fun _ => none) false := rfl
  rw [start, readOptions_argumentsOf whole]
  simp only [Option.or_none, Bool.false_or]

/-- **Only what is given last counts.** Behind a command in any mix of capital and small letters, two
    lists of options in which each option with a value has the same last argument, and of which both or
    neither ask for base64 text, give the same run on every tree. What is read off such a list is what
    its last arguments spell; and whatever stands behind the name of an option is taken as its value. -/
theorem run_of_last_arguments {verb : Verb} {command command' : Bytes}
    (named : IsSpelling verb.word command) (named' : IsSpelling verb.word command')
    (whole : ∀ g ∈ options, g.WellFormed) (whole' : ∀ g ∈ options', g.WellFormed)
    (same : ∀ setting, lastArgument? setting options = lastArgument? setting options')
    (flag : GivenOption.base64 ∈ options ↔ GivenOption.base64 ∈ options') :
    (∀ t, runWith codec (command :: argumentsOf options) t
      = runWith codec (command' :: argumentsOf options') t) ∧
    ∃ o, readOptions .none (argumentsOf options) = .ok (some o) ∧
      (∀ w, o.width = some w
        ↔ ∃ a, lastArgument? .width options = some a ∧ Numeral.Spells a w.bits) ∧
      (∀ n, o.count = some n
        ↔ ∃ a, lastArgument? .count options = some a ∧ Numeral.Spells a n.toNat) ∧
      o.input = (lastArgument? .input options).getD [] ∧
      o.output = (lastArgument? .output options).getD [] ∧
      (o.base64 = true ↔ GivenOption.base64 ∈ options) ∧
      ∀ setting short value back,
        readOptions .none (argumentsOf options ++ setting.name short :: value :: back)
          = (o.set setting value).bind (readOptions · back) := by
  have read := readOptions_none_argumentsOf whole
  have read' := readOptions_none_argumentsOf whole'
  refine ⟨fun t => run_congr codec (parse_congr (Verb.ofArgument?_of_spelling named)
      (Verb.ofArgument?_of_spelling named') ?_) t,
    _, read, fun w => Options.width_ofArguments, fun n => Options.count_ofArguments, rfl, rfl,
    decide_eq_true_iff, fun setting short value back => ?_⟩
  · rw [read, read', funext same, decide_eq_decide.2 flag]
  · exact readOptions_behind read (setting.ofArgument?_name short) value back

end Runs

/-- Two ways to give the same options: other names, another order, values that are given over, and an
    input that has the name of the option for base64 text. -/
theorem run_of_last_arguments_two_lists :
    ∃ t report t', t = .ofEntries [(ascii "--base64", some (ascii "5 3"))] ∧
      run [ascii "PaCk", ascii "--width", ascii "7", ascii "--base64", ascii "-i",
        ascii "--base64", ascii "--output", ascii "o", ascii "-w", ascii "003"] t = (report, t') ∧
      run [ascii "pack", ascii "-o", ascii "-h", ascii "-w", ascii "003", ascii "--input",
        ascii "--base64", ascii "-o", ascii "o", ascii "--base64", ascii "--base64"] t
          = (report, t') ∧
      report.exit = 0 ∧ t'.read (ascii "o") = .ok (ascii "rA==\n") := by
  have named : IsSpelling Verb.pack.word (ascii "PaCk") := by
    unfold IsSpelling
    decide
  have named' : IsSpelling Verb.pack.word (ascii "pack") := by
    unfold IsSpelling
    decide
  have seven : Setting.width.Takes (ascii "7") :=
    ⟨7, by decide, Numeral.spells_iff.2 (by decide +kernel)⟩
  have three : Setting.width.Takes (ascii "003") :=
    ⟨3, by decide, Numeral.spells_iff.2 (by decide +kernel)⟩
  have whole : ∀ g ∈ [GivenOption.withValue .width false (ascii "7"), .base64,
      .withValue .input true (ascii "--base64"), .withValue .output false (ascii "o"),
      .withValue .width true (ascii "003")], g.WellFormed := by
    simp only [List.forall_mem_cons]
    exact ⟨seven, trivial, trivial, trivial, three, fun _ h => absurd h List.not_mem_nil⟩
  have whole' : ∀ g ∈ [GivenOption.withValue .output true (ascii "-h"),
      .withValue .width true (ascii "003"), .withValue .input false (ascii "--base64"),
      .withValue .output true (ascii "o"), .base64, .base64], g.WellFormed := by
    simp only [List.forall_mem_cons]
    exact ⟨trivial, three, trivial, trivial, trivial, trivial,
      fun _ h => absurd h List.not_mem_nil⟩
  have same := (run_of_last_arguments Base64.standardCodec named named' whole whole'
    (fun setting => by cases setting <;> decide) (by decide)).1
  refine ⟨_, _, _, rfl, Prod.mk.eta.symm, (same _).symm.trans Prod.mk.eta.symm, ?_, ?_⟩
  · decide +kernel
  · decide +kernel

end PackedInts
