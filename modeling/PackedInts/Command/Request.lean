import PackedInts.Command.Error

/-!
# Requests

The arguments of a run are a command and its options. Options come in any order; of a repeated one
the last counts; the argument behind an option that takes a value is its value, whatever it looks
like.

* `Verb` -- the commands, recognised in any mix of capital and small letters;
* `Options`, `readOptions` -- the options, read from left to right;
* `Request`, `Request.parse` -- what is asked for, with all that it needs.

Main statements: `readOptions_setting` and `readOptions_base64`, what each option does;
`number?_eq_some_iff`, a number is a numeral below 2^64 and nothing else.
-/

namespace PackedInts

/-! ## 1. Commands -/

inductive Verb
  | pack
  | unpack
  | layout
  | help
  deriving DecidableEq, Repr

/-- The command of a word in small letters. -/
def Verb.ofLower? (word : Bytes) : Option Verb :=
  if word = ascii "pack" then some .pack
  else if word = ascii "unpack" then some .unpack
  else if word = ascii "layout" then some .layout
  else if word = ascii "help" ∨ word = ascii "--help" ∨ word = ascii "-h" then some .help
  else none

/-- The command that an argument names. -/
def Verb.ofArgument? (argument : Bytes) : Option Verb :=
  Verb.ofLower? (argument.map toLower)

/-! ## 2. Options -/

/-- The number that an argument spells: a run of digits and nothing else, below 2^64. -/
def number? (argument : Bytes) : Option UInt64 :=
  if Numeral.isNumeral argument ∧ Numeral.value argument < UInt64.size then
    some (Numeral.value argument).toUInt64
  else none

/-- **A number is a numeral below 2^64, and has its value.** -/
theorem number?_eq_some_iff {argument : Bytes} {n : UInt64} :
    number? argument = some n ↔
      Numeral.isNumeral argument = true ∧ Numeral.value argument = n.toNat := by
  unfold number?
  constructor
  · intro h
    split at h
    · rename_i ok
      cases h
      refine ⟨ok.1, ?_⟩
      have := ok.2
      simp [Nat.mod_eq_of_lt, this]
    · cases h
  · rintro ⟨hn, hv⟩
    have : Numeral.value argument < UInt64.size := hv ▸ n.toNat_lt
    rw [if_pos ⟨hn, this⟩, hv]
    simp

/-- The options given so far. An empty path is as good as none. -/
structure Options where
  width : Option BitWidth
  count : Option UInt64
  input : Bytes
  output : Bytes
  base64 : Bool
  deriving DecidableEq, Repr

def Options.none : Options :=
  ⟨.none, .none, [], [], false⟩

/-- The option that an argument names. -/
def Setting.ofArgument? (argument : Bytes) : Option Setting :=
  [Setting.width, .count, .input, .output].find? fun setting =>
    argument = setting.longName ∨ argument = setting.shortName

def maxWidthNumber : UInt64 :=
  0xFFFFFFFF

/-- The width that an argument spells. A number that is no supported width is refused under its own
    value, or under the largest 32-bit one if it is above. -/
def widthOfArgument (argument : Bytes) : Except CommandError BitWidth :=
  match number? argument with
  | .none => .error (.invalidWidth argument)
  | some n => (BitWidth.ofUInt32 (min n maxWidthNumber).toUInt32).mapError .packing

def countOfArgument (argument : Bytes) : Except CommandError UInt64 :=
  match number? argument with
  | .none => .error (.invalidCount argument)
  | some n => .ok n

/-- The options with one more given. -/
def Options.set (o : Options) (setting : Setting) (argument : Bytes) : Except CommandError Options :=
  match setting with
  | .width => (widthOfArgument argument).map fun w => { o with width := some w }
  | .count => (countOfArgument argument).map fun n => { o with count := some n }
  | .input => .ok { o with input := argument }
  | .output => .ok { o with output := argument }

def base64Flag : Bytes :=
  ascii "--base64"

def asksForHelp (argument : Bytes) : Bool :=
  argument = ascii "--help" ∨ argument = ascii "-h"

/-- Reads options from left to right, behind those given so far; nothing if help was asked for on
    the way. -/
def readOptions (o : Options) : List Bytes → Except CommandError (Option Options)
  | [] => .ok (some o)
  | argument :: rest =>
    match Setting.ofArgument? argument with
    | some setting =>
      match rest with
      | [] => .error (.unrecognizedArgument argument)
      | value :: others =>
        match o.set setting value with
        | .ok o' => readOptions o' others
        | .error e => .error e
    | .none =>
      if argument = base64Flag then readOptions { o with base64 := true } rest
      else if asksForHelp argument then .ok .none
      else .error (.unrecognizedArgument argument)

@[simp] theorem readOptions_nil (o : Options) : readOptions o [] = .ok (some o) := rfl

/-- **An option takes the argument behind it as its value**, whatever it looks like. -/
theorem readOptions_setting {argument : Bytes} {setting : Setting}
    (h : Setting.ofArgument? argument = some setting) (o : Options) (value : Bytes)
    (rest : List Bytes) :
    readOptions o (argument :: value :: rest) = (o.set setting value).bind (readOptions · rest) := by
  simp only [readOptions, h]
  cases o.set setting value <;> rfl

/-- **The option for base64 text takes no value.** -/
theorem readOptions_base64 (o : Options) (rest : List Bytes) :
    readOptions o (base64Flag :: rest) = readOptions { o with base64 := true } rest := by
  have : Setting.ofArgument? base64Flag = .none := by decide
  rw [readOptions, this]
  simp

/-! ## 3. Requests -/

/-- What a run is asked to do. -/
inductive Request
  | help
  | layout (width : BitWidth)
  | pack (width : BitWidth) (base64 : Bool) (input output : Bytes)
  | unpack (width : BitWidth) (count : UInt64) (base64 : Bool) (input output : Bytes)
  deriving DecidableEq, Repr

/-- The paths that a command needs; the input is missed first. -/
def Options.paths (o : Options) : Except CommandError (Bytes × Bytes) :=
  if o.input = [] then .error (.missingSetting .input)
  else if o.output = [] then .error (.missingSetting .output)
  else .ok (o.input, o.output)

/-- The request of a command with its options, or the first option that it misses. -/
def Request.ofOptions (verb : Verb) (o : Options) : Except CommandError Request :=
  match verb, o.width with
  | .help, _ => .ok .help
  | _, .none => .error (.missingSetting .width)
  | .layout, some w => .ok (.layout w)
  | .pack, some w => o.paths.map fun (input, output) => .pack w o.base64 input output
  | .unpack, some w =>
    match o.count with
    | .none => .error (.missingSetting .count)
    | some n => o.paths.map fun (input, output) => .unpack w n o.base64 input output

/-- The request of a run's arguments. No argument asks for help, and so does the command for help,
    whatever follows it. -/
def Request.parse : List Bytes → Except CommandError Request
  | [] => .ok .help
  | command :: rest =>
    match Verb.ofArgument? command with
    | .none => .error (.unknownCommand command)
    | some .help => .ok .help
    | some verb =>
      match readOptions .none rest with
      | .error e => .error e
      | .ok .none => .ok .help
      | .ok (some o) => Request.ofOptions verb o

end PackedInts
