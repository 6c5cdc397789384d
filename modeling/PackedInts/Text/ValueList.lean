import PackedInts.Text.Numeral
import PackedInts.Text.Words

/-!
# Lists of values as text

Values are written as decimal numerals. On input they stand apart by blanks or commas, in any
number; on output each stands on a line of its own.

* `ValueList.parse` -- the values of a text, or the first token that is no value;
* `ValueList.format` -- the text of a list of values.

A token is read digit by digit into a 64-bit word and given up as soon as the value is too large,
so no token is long enough to make the word overflow.

Main statements: `parse_nil` and `parse_separator`, no token gives no value and separators in front
do not matter; `format_cons`, each value has a line of its own.
-/

namespace PackedInts.ValueList

/-! ## 1. Tokens -/

/-- Why a text is no list of values. Each cause carries the whole offending token. -/
inductive Error
  /-- The token holds a byte that is no decimal digit. -/
  | notNumeral (token : Bytes)
  /-- The token's digits spell a number of more than 32 bits. -/
  | tooLarge (token : Bytes)
  deriving DecidableEq, Repr

/-- The wording of an error. A message ends before the first zero byte. -/
def Error.message : Error → Bytes
  | .notNumeral token => ascii "Invalid value token: " ++ beforeZero token
  | .tooLarge token => ascii "Value does not fit in 32 bits: " ++ beforeZero token

def separatesValues (b : UInt8) : Bool :=
  b == ','.toUInt8 || isSpace b

def maxValue : UInt64 :=
  0xFFFFFFFF

/-- The number read so far with one more digit behind it. -/
def withDigit (n : UInt64) (digit : UInt8) : UInt64 :=
  n * 10 + (digit - '0'.toUInt8).toUInt64

/-- Reads the digits of a token that are left, behind the number read so far. -/
def readDigits (token : Bytes) (n : UInt64) : Bytes → Except Error UInt32
  | [] => .ok n.toUInt32
  | b :: bs =>
    if isDigit b then
      if maxValue < withDigit n b then .error (.tooLarge token)
      else readDigits token (withDigit n b) bs
    else .error (.notNumeral token)

def readToken (token : Bytes) : Except Error UInt32 :=
  readDigits token 0 token

/-! ## 2. Lists -/

/-- The values of a text in order, or the error of its first token that is no value. -/
def parse (text : Bytes) : Except Error (List UInt32) :=
  (words separatesValues text).mapM readToken

def line (v : UInt32) : Bytes :=
  Numeral.decimal v.toNat ++ ascii "\n"

/-- The text of a list of values, one to a line. -/
def format (vs : List UInt32) : Bytes :=
  vs.flatMap line

@[simp] theorem parse_nil : parse [] = .ok [] := by
  rw [parse, words_nil]
  rfl

/-- Separators in front do not matter. -/
theorem parse_separator {b : UInt8} (h : separatesValues b = true) (text : Bytes) :
    parse (b :: text) = parse text := by
  rw [parse, words_cons_separator h, parse]

@[simp] theorem format_nil : format [] = [] := rfl

@[simp] theorem format_cons (v : UInt32) (vs : List UInt32) : format (v :: vs) = line v ++ format vs :=
  List.flatMap_cons

end PackedInts.ValueList
