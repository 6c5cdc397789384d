import Mathlib
import PackedInts.Command.Request
import PackedInts.Proofs.Command.Numerals

/-!
# Arguments of packings and unpackings

* `parse_of_verb` -- a command with what is read behind it;
* `packArguments`, `unpackArguments` -- the arguments of a packing and of an unpacking, with all
  options in their short form;
* `parse_packArguments`, `parse_unpackArguments` -- what they ask for;
* `AddsBase64` -- the flag for base64 text added to any arguments, between two options:
  **`parse_of_addsBase64`**, what they ask for with it.
-/

namespace PackedInts

/-! ## 1. Options -/

/-- The option for base64 text, if it is given. -/
def base64Arguments (base64 : Bool) : List Bytes :=
  if base64 then [base64Flag] else []

theorem readOptions_base64Arguments (o : Options) (base64 : Bool) :
    readOptions o (base64Arguments base64)
      = .ok (some { o with base64 := base64 || o.base64 }) := by
  cases base64 with
  | false => rfl
  | true => exact readOptions_base64 o []

/-- Each option is known by its short name. -/
theorem Setting.ofArgument?_shortName (setting : Setting) :
    Setting.ofArgument? setting.shortName = some setting := by
  cases setting <;> decide

/-- **An option whose value is taken** changes the options given, and the rest is read behind it. -/
theorem readOptions_shortName {o o' : Options} {setting : Setting} {argument : Bytes}
    (h : o.set setting argument = .ok o') (rest : List Bytes) :
    readOptions o (setting.shortName :: argument :: rest) = readOptions o' rest := by
  rw [readOptions_setting setting.ofArgument?_shortName, h]
  rfl

theorem Options.set_width (o : Options) (w : BitWidth) :
    o.set .width (Numeral.decimal w.bits) = .ok { o with width := some w } := by
  unfold Options.set
  dsimp only
  rw [widthOfArgument_decimal]
  rfl

theorem Options.set_count (o : Options) {n : Nat} (h : n < 2 ^ 64) :
    o.set .count (Numeral.decimal n) = .ok { o with count := some n.toUInt64 } := by
  unfold Options.set
  dsimp only
  rw [countOfArgument_decimal h]
  rfl

theorem Options.set_input (o : Options) (argument : Bytes) :
    o.set .input argument = .ok { o with input := argument } := rfl

theorem Options.set_output (o : Options) (argument : Bytes) :
    o.set .output argument = .ok { o with output := argument } := rfl

/-! ## 2. Packings and unpackings -/

/-- The arguments of a packing. -/
def packArguments (w : BitWidth) (base64 : Bool) (input output : Bytes) : List Bytes :=
  [ascii "pack", ascii "-w", Numeral.decimal w.bits, ascii "-i", input, ascii "-o", output]
    ++ base64Arguments base64

/-- The arguments of an unpacking. -/
def unpackArguments (w : BitWidth) (count : Nat) (base64 : Bool) (input output : Bytes) :
    List Bytes :=
  [ascii "unpack", ascii "-w", Numeral.decimal w.bits, ascii "-n", Numeral.decimal count,
    ascii "-i", input, ascii "-o", output] ++ base64Arguments base64

section Parse

variable {w : BitWidth} {base64 : Bool} {input output : Bytes}

theorem paths_of_ne {o : Options} (hi : o.input ≠ []) (ho : o.output ≠ []) :
    o.paths = .ok (o.input, o.output) := by
  unfold Options.paths
  rw [if_neg hi, if_neg ho]

/-- What a command asks for is what it asks for with the options that are read behind it. -/
theorem parse_of_verb {command : Bytes} {verb : Verb} (named : Verb.ofArgument? command = some verb)
    (working : verb ≠ .help) (rest : List Bytes) :
    Request.parse (command :: rest) = (readOptions .none rest).bind fun
      | none => .ok .help
      | some o => Request.ofOptions verb o := by
  unfold Request.parse
  dsimp only
  rw [named]
  cases verb with
  | help => exact absurd rfl working
  | pack => rcases readOptions .none rest with e | _ | o <;> rfl
  | unpack => rcases readOptions .none rest with e | _ | o <;> rfl
  | layout => rcases readOptions .none rest with e | _ | o <;> rfl

/-- The command of an argument, read from its options. -/
theorem parse_of_options {command : Bytes} {verb : Verb} {rest : List Bytes} {o : Options}
    (named : Verb.ofArgument? command = some verb) (working : verb ≠ .help)
    (read : readOptions .none rest = .ok (some o)) :
    Request.parse (command :: rest) = Request.ofOptions verb o := by
  rw [parse_of_verb named working, read]
  rfl

theorem readOptions_packArguments (w : BitWidth) (base64 : Bool) (input output : Bytes) :
    readOptions .none (packArguments w base64 input output).tail
      = .ok (some ⟨some w, none, input, output, base64⟩) := by
  show readOptions .none (Setting.width.shortName :: _ :: Setting.input.shortName :: _ ::
    Setting.output.shortName :: _ :: base64Arguments base64) = _
  rw [readOptions_shortName (Options.set_width _ w),
    readOptions_shortName (Options.set_input _ input),
    readOptions_shortName (Options.set_output _ output), readOptions_base64Arguments]
  cases base64 <;> rfl

theorem readOptions_unpackArguments (w : BitWidth) {count : Nat} (few : count < 2 ^ 64)
    (base64 : Bool) (input output : Bytes) :
    readOptions .none (unpackArguments w count base64 input output).tail
      = .ok (some ⟨some w, some count.toUInt64, input, output, base64⟩) := by
  show readOptions .none (Setting.width.shortName :: _ :: Setting.count.shortName :: _ ::
    Setting.input.shortName :: _ :: Setting.output.shortName :: _ :: base64Arguments base64) = _
  rw [readOptions_shortName (Options.set_width _ w),
    readOptions_shortName (Options.set_count _ few),
    readOptions_shortName (Options.set_input _ input),
    readOptions_shortName (Options.set_output _ output), readOptions_base64Arguments]
  cases base64 <;> rfl

/-- **The arguments of a packing ask for it.** -/
theorem parse_packArguments (hi : input ≠ []) (ho : output ≠ []) :
    Request.parse (packArguments w base64 input output) = .ok (.pack w base64 input output) := by
  have named : Verb.ofArgument? (ascii "pack") = some .pack := by decide
  refine (parse_of_options named Verb.noConfusion
    (readOptions_packArguments w base64 input output)).trans ?_
  unfold Request.ofOptions
  dsimp only
  rw [paths_of_ne hi ho]
  rfl

/-- **So do the arguments of an unpacking.** -/
theorem parse_unpackArguments {count : Nat} (few : count < 2 ^ 64) (hi : input ≠ [])
    (ho : output ≠ []) :
    Request.parse (unpackArguments w count base64 input output)
      = .ok (.unpack w count.toUInt64 base64 input output) := by
  have named : Verb.ofArgument? (ascii "unpack") = some .unpack := by decide
  refine (parse_of_options named Verb.noConfusion
    (readOptions_unpackArguments w few base64 input output)).trans ?_
  unfold Request.ofOptions
  dsimp only
  rw [paths_of_ne hi ho]
  rfl

end Parse

/-! ## 3. The flag for base64 text -/

/-- The options with the one for base64 text given. -/
def Options.withBase64 (o : Options) : Options :=
  { o with base64 := true }

/-- The request with its packed file as base64 text, if it has one. -/
def Request.withBase64 : Request → Request
  | .help => .help
  | .layout w => .layout w
  | .pack w _ input output => .pack w true input output
  | .unpack w count _ input output => .unpack w count true input output

/-- The flag was added behind the command, in front of an option or at the end, but not in the place
    of an option's value. -/
def AddsBase64 (arguments arguments' : List Bytes) : Prop :=
  ∃ command front back o, readOptions .none front = .ok (some o) ∧
    arguments = command :: (front ++ back) ∧ arguments' = command :: (front ++ base64Flag :: back)

section Flag

variable {o o' : Options} {front : List Bytes}

/-- **Options are read up to a point and from there on.** -/
theorem readOptions_append (read : readOptions o front = .ok (some o')) (back : List Bytes) :
    readOptions o (front ++ back) = readOptions o' back := by
  fun_induction readOptions o front with
  | case1 o =>
    cases read
    rfl
  | case2 o argument setting named => cases read
  | case3 o argument setting named value others changed set ih =>
    rw [List.cons_append, List.cons_append, readOptions_setting named, set]
    exact ih read
  | case4 o argument setting named value others e set => cases read
  | case5 o rest named ih =>
    rw [List.cons_append, readOptions_base64]
    exact ih read
  | case6 o argument rest named other help => cases read
  | case7 o argument rest named other unknown => cases read

/-- The other options do not look at it. -/
theorem Options.set_withBase64 (o : Options) (setting : Setting) (argument : Bytes) :
    o.withBase64.set setting argument = (o.set setting argument).map Options.withBase64 := by
  cases setting with
  | width =>
    unfold Options.set
    dsimp only
    cases widthOfArgument argument <;> rfl
  | count =>
    unfold Options.set
    dsimp only
    cases countOfArgument argument <;> rfl
  | input => rfl
  | output => rfl

/-- **So it can be given first**, whatever the other options are. -/
theorem readOptions_withBase64 (o : Options) (arguments : List Bytes) :
    readOptions o.withBase64 arguments
      = (readOptions o arguments).map (Option.map Options.withBase64) := by
  fun_induction readOptions o arguments with
  | case1 o => rfl
  | case2 o argument setting named =>
    unfold readOptions
    rw [named]
    rfl
  | case3 o argument setting named value others changed set ih =>
    rw [readOptions_setting named, o.set_withBase64, set]
    exact ih
  | case4 o argument setting named value others e set =>
    rw [readOptions_setting named, o.set_withBase64, set]
    rfl
  | case5 o rest named ih =>
    rw [readOptions_base64]
    exact ih
  | case6 o argument rest named other help =>
    unfold readOptions
    rw [named]
    dsimp only
    rw [if_neg other, if_pos help]
    rfl
  | case7 o argument rest named other unknown =>
    unfold readOptions
    rw [named]
    dsimp only
    rw [if_neg other, if_neg unknown]
    rfl

theorem Request.ofOptions_withBase64 (verb : Verb) (o : Options) :
    Request.ofOptions verb o.withBase64 = (Request.ofOptions verb o).map Request.withBase64 := by
  have same : o.withBase64.paths = o.paths := rfl
  obtain ⟨width, count, input, output, base64⟩ := o
  unfold Request.ofOptions
  rw [same]
  cases verb with
  | help => rfl
  | layout => cases width <;> rfl
  | pack =>
    cases width with
    | none => rfl
    | some w => cases Options.paths ⟨some w, count, input, output, base64⟩ <;> rfl
  | unpack =>
    cases width with
    | none => rfl
    | some w =>
      cases count with
      | none => rfl
      | some n => cases Options.paths ⟨some w, some n, input, output, base64⟩ <;> rfl

/-- **What arguments ask for with the flag added**: the same, with base64 text, or the same error. -/
theorem parse_of_addsBase64 {arguments arguments' : List Bytes}
    (added : AddsBase64 arguments arguments') :
    Request.parse arguments' = (Request.parse arguments).map Request.withBase64 := by
  obtain ⟨command, front, back, o, read, rfl, rfl⟩ := added
  have flagged : readOptions .none (front ++ base64Flag :: back)
      = (readOptions .none (front ++ back)).map (Option.map Options.withBase64) := by
    rw [readOptions_append read, readOptions_append read, readOptions_base64]
    exact readOptions_withBase64 o back
  unfold Request.parse
  dsimp only
  rw [flagged]
  cases Verb.ofArgument? command with
  | none => rfl
  | some verb =>
    rcases readOptions .none (front ++ back) with e | _ | options
    · cases verb <;> rfl
    · cases verb <;> rfl
    · cases verb with
      | help => rfl
      | layout => exact Request.ofOptions_withBase64 .layout options
      | pack => exact Request.ofOptions_withBase64 .pack options
      | unpack => exact Request.ofOptions_withBase64 .unpack options

end Flag

/-- The flag is added to the arguments of a packing at their end. -/
theorem addsBase64_packArguments (w : BitWidth) (input output : Bytes) :
    AddsBase64 (packArguments w false input output) (packArguments w true input output) :=
  ⟨_, (packArguments w false input output).tail, [], _,
    readOptions_packArguments w false input output, rfl, rfl⟩

theorem addsBase64_unpackArguments (w : BitWidth) {count : Nat} (few : count < 2 ^ 64)
    (input output : Bytes) :
    AddsBase64 (unpackArguments w count false input output)
      (unpackArguments w count true input output) :=
  ⟨_, (unpackArguments w count false input output).tail, [], _,
    readOptions_unpackArguments w few false input output, rfl, rfl⟩

end PackedInts
