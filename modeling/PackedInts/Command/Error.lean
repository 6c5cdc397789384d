import PackedInts.Width
import PackedInts.Text.Base64Codec
import PackedInts.Text.ValueList
import PackedInts.FileTree.Access

/-!
# What can go wrong on the command line

* `Setting` -- the options that take a value;
* `CommandError` -- every reason for which a run ends with exit code one, with what its message
  names.
-/

namespace PackedInts

/-- The options that take a value. -/
inductive Setting
  | width
  | count
  | input
  | output
  deriving DecidableEq, Repr

def Setting.longName : Setting → Bytes
  | .width => ascii "--width"
  | .count => ascii "--count"
  | .input => ascii "--input"
  | .output => ascii "--output"

def Setting.shortName : Setting → Bytes
  | .width => ascii "-w"
  | .count => ascii "-n"
  | .input => ascii "-i"
  | .output => ascii "-o"

/-- Why a run failed. -/
inductive CommandError
  | unknownCommand (argument : Bytes)
  /-- An argument is no option, or an option that lacks its value. -/
  | unrecognizedArgument (argument : Bytes)
  | invalidWidth (argument : Bytes)
  | invalidCount (argument : Bytes)
  | missingSetting (setting : Setting)
  | inputMissing (path : Bytes)
  | inputIsDirectory (path : Bytes)
  /-- A value of the input, at this position from zero, needs more bits. -/
  | valueTooWide (value : UInt32) (position : Nat) (width : BitWidth)
  /-- The input holds fewer bytes than the values need. -/
  | inputTooShort (held : Nat) (count : UInt64) (width : BitWidth) (needed : UInt64)
  | packing (error : PackingError)
  | values (error : ValueList.Error)
  /-- Base64 text that is not read. -/
  | base64 (error : Base64.Failure)
  /-- Bytes that are not written as base64 text. -/
  | encoding (error : Base64.EncodingFailure)
  | file (error : FileError)
  deriving DecidableEq, Repr

def CommandError.message : CommandError → Bytes
  | .unknownCommand argument => ascii "Unknown command: " ++ argument
  | .unrecognizedArgument argument => ascii "Unrecognized argument: " ++ argument
  | .invalidWidth argument => ascii "Invalid bit width: " ++ argument
  | .invalidCount argument => ascii "Invalid value count: " ++ argument
  | .missingSetting setting =>
      ascii "Missing required " ++ setting.longName ++ ascii " argument"
  | .inputMissing path => ascii "Input path does not exist: " ++ path
  | .inputIsDirectory path => ascii "Input must be a file, not a directory: " ++ path
  | .valueTooWide value position width =>
      ascii "Value " ++ Numeral.decimal value.toNat ++ ascii " at position "
        ++ Numeral.decimal position ++ ascii " does not fit in " ++ Numeral.decimal width.bits
        ++ ascii " bits"
  | .inputTooShort held count width needed =>
      ascii "Packed input holds " ++ Numeral.decimal held ++ ascii " bytes but "
        ++ Numeral.decimal count.toNat ++ ascii " values at width " ++ Numeral.decimal width.bits
        ++ ascii " need " ++ Numeral.decimal needed.toNat
  | .packing error => error.message
  | .values error => error.message
  | .base64 error => error.message
  | .encoding error => error.message
  | .file error => error.message

end PackedInts
