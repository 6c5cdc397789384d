import PackedInts.Text.Bytes

/-!
# Base64 text

Three bytes are written as four characters of six bits each. A last group of one or two bytes is
filled with zero bits and written with two or one padding signs. The text has no line breaks.

* `Base64.glyph`, `Base64.code?` -- the character of a six-bit code, and back;
* `Base64.encode` -- the text of bytes;
* `Base64.decode` -- the bytes of a text, whose blanks at both ends are skipped.

Reading wants whole groups of four characters and padding only at the end. It does not look at the
bits that padding leaves over, so several texts stand for the same bytes.

Both say what the text of bytes is, and how it reads. A run leaves the work on groups to a codec from
outside, and has its own limits and failures: `PackedInts.Text.Base64Codec`.

Main statements: `Base64.code?_glyph`, the alphabet reads back; `Base64.encode_cons`, encoding goes
group by group; `Base64.decode_eq_error_length`, the length is looked at first.
-/

namespace PackedInts.Base64

/-! ## 1. The alphabet -/

/-- Why a text is not base64. -/
inductive Error
  /-- Without the blanks at its ends the text is not made of groups of four characters. -/
  | length
  /-- A padding sign stands before the last two characters. -/
  | earlyPadding
  /-- A character is not of the alphabet, or stands behind a padding sign. -/
  | character
  deriving DecidableEq, Repr

def Error.message : Error → Bytes
  | .length => ascii "Base64 input length must be a multiple of 4"
  | .earlyPadding => ascii "Base64 padding found before the end of input"
  | .character => ascii "Invalid character in base64 input"

def padding : UInt8 :=
  '='.toUInt8

/-- The character of a six-bit code. -/
def glyph (code : Nat) : UInt8 :=
  if code < 26 then 'A'.toUInt8 + code.toUInt8
  else if code < 52 then 'a'.toUInt8 + (code - 26).toUInt8
  else if code < 62 then '0'.toUInt8 + (code - 52).toUInt8
  else if code = 62 then '+'.toUInt8
  else '/'.toUInt8

def code? (c : UInt8) : Option Nat :=
  if 'A'.toUInt8 ≤ c ∧ c ≤ 'Z'.toUInt8 then some (c - 'A'.toUInt8).toNat
  else if 'a'.toUInt8 ≤ c ∧ c ≤ 'z'.toUInt8 then some ((c - 'a'.toUInt8).toNat + 26)
  else if '0'.toUInt8 ≤ c ∧ c ≤ '9'.toUInt8 then some ((c - '0'.toUInt8).toNat + 52)
  else if c = '+'.toUInt8 then some 62
  else if c = '/'.toUInt8 then some 63
  else none

/-- **The alphabet reads back.** -/
theorem code?_glyph : ∀ code < 64, code? (glyph code) = some code := by
  decide

theorem code?_padding : code? padding = none := by
  decide

/-! ## 2. Encoding -/

/-- The codes of a whole group of three bytes. -/
def codesOfThree (a b c : UInt8) : List Nat :=
  [a.toNat / 4, a.toNat % 4 * 16 + b.toNat / 16, b.toNat % 16 * 4 + c.toNat / 64, c.toNat % 64]

/-- The characters of a last group of two bytes. -/
def lastTwo (a b : UInt8) : Bytes :=
  [glyph (a.toNat / 4), glyph (a.toNat % 4 * 16 + b.toNat / 16), glyph (b.toNat % 16 * 4), padding]

/-- The characters of a last group of one byte. -/
def lastOne (a : UInt8) : Bytes :=
  [glyph (a.toNat / 4), glyph (a.toNat % 4 * 16), padding, padding]

/-- The text of bytes, behind the text written before. -/
def encodeOnto (out : Array UInt8) : Bytes → Bytes
  | a :: b :: c :: rest => encodeOnto (out ++ (codesOfThree a b c).map glyph) rest
  | [a, b] => out.toList ++ lastTwo a b
  | [a] => out.toList ++ lastOne a
  | [] => out.toList

def encode (bytes : Bytes) : Bytes :=
  encodeOnto #[] bytes

/-- What was written before stands in front and changes nothing else. -/
theorem encodeOnto_eq (out : Array UInt8) (bytes : Bytes) :
    encodeOnto out bytes = out.toList ++ encode bytes := by
  have general : ∀ (bytes : Bytes) (left right : Array UInt8),
      encodeOnto (left ++ right) bytes = left.toList ++ encodeOnto right bytes := by
    intro bytes left right
    fun_induction encodeOnto right bytes with
    | case1 right a b c rest ih =>
      rw [encodeOnto, ← ih]
      exact congrArg (encodeOnto · rest) (Array.toList_inj.1 (by simp))
    | case2 right a b => simp [encodeOnto]
    | case3 right a => simp [encodeOnto]
    | case4 right => simp [encodeOnto]
  simpa [encode] using general bytes out #[]

@[simp] theorem encode_nil : encode [] = [] := rfl

@[simp] theorem encode_one (a : UInt8) : encode [a] = lastOne a := rfl

@[simp] theorem encode_two (a b : UInt8) : encode [a, b] = lastTwo a b := rfl

/-- **Encoding goes group by group.** -/
theorem encode_cons (a b c : UInt8) (rest : Bytes) :
    encode (a :: b :: c :: rest) = (codesOfThree a b c).map glyph ++ encode rest := by
  rw [encode, encodeOnto, encodeOnto_eq]
  simp

/-! ## 3. Decoding -/

/-- Whether the text behind a padding sign may stand there: at most one more sign, and nothing
    else. -/
def checkPadding : Bytes → Except Error Unit
  | [] => .ok ()
  | [c] => if c = padding then .ok () else .error .character
  | _ => .error .earlyPadding

/-- The codes of a text up to its padding, behind the codes read before. The first character from
    the left that may not stand where it stands decides the error. -/
def codesOnto (codes : Array Nat) : Bytes → Except Error (List Nat)
  | [] => .ok codes.toList
  | c :: rest =>
    if c = padding then (checkPadding rest).map fun _ => codes.toList
    else
      match code? c with
      | some code => codesOnto (codes.push code) rest
      | none => .error .character

/-- The three bytes of a group of four codes. -/
def bytesOfFour (p q r s : Nat) : Bytes :=
  [(p * 4 + q / 16).toUInt8, (q % 16 * 16 + r / 4).toUInt8, (r % 4 * 64 + s).toUInt8]

/-- The bytes that codes spell, behind the bytes read before; bits that fill no byte are left. -/
def bytesOnto (out : Array UInt8) : List Nat → Bytes
  | p :: q :: r :: s :: rest => bytesOnto (out ++ bytesOfFour p q r s) rest
  | [p, q, r] => out.toList ++ [(p * 4 + q / 16).toUInt8, (q % 16 * 16 + r / 4).toUInt8]
  | [p, q] => out.toList ++ [(p * 4 + q / 16).toUInt8]
  | _ => out.toList

def decode (text : Bytes) : Except Error Bytes :=
  if (trim text).length % 4 ≠ 0 then .error .length
  else (codesOnto #[] (trim text)).map (bytesOnto #[])

/-- **The length is looked at first.** -/
theorem decode_eq_error_length {text : Bytes} (h : (trim text).length % 4 ≠ 0) :
    decode text = .error .length := by
  rw [decode, if_pos h]

end PackedInts.Base64
