/-!
# Byte strings and their ASCII classes

Text, paths and messages of this library are byte strings: any byte may stand in a path or in a
token, so no encoding is assumed, and only ASCII bytes carry a meaning.

* `Bytes` -- a byte string, and `ascii`, the byte string of a literal;
* `isSpace`, `isDigit`, `isUpper`, `toLower` -- the ASCII classes; no byte from 128 on is in any;
* `trim` -- a text without the blanks at its two ends;
* `beforeZero` -- a text up to its first zero byte.

Main statements: `trim_append_left`, leading blanks do not matter; `trim_eq_self`, a text with
solid ends is left alone; `beforeZero_eq_self`, so is a text without a zero byte.
-/

namespace PackedInts

/-! ## 1. Byte strings -/

abbrev Bytes := List UInt8

/-- The bytes of a literal made of ASCII characters. -/
def ascii (s : String) : Bytes :=
  s.toList.map Char.toUInt8

/-! ## 2. Classes of bytes -/

/-- What holds of the bytes of all numbers below 256 holds of every byte. -/
theorem forall_byte {P : UInt8 → Prop} (h : ∀ n < 256, P (UInt8.ofNat n)) (b : UInt8) : P b := by
  have all := h b.toNat b.toNat_lt
  rwa [UInt8.ofNat_toNat] at all

/-- Space, tab, line feed, vertical tab, form feed and carriage return. -/
def isSpace (b : UInt8) : Bool :=
  b == 32 || (9 ≤ b && b ≤ 13)

def isDigit (b : UInt8) : Bool :=
  '0'.toUInt8 ≤ b && b ≤ '9'.toUInt8

def isUpper (b : UInt8) : Bool :=
  'A'.toUInt8 ≤ b && b ≤ 'Z'.toUInt8

/-- The small letter of a capital letter; every other byte is its own. -/
def toLower (b : UInt8) : UInt8 :=
  if isUpper b then b + 32 else b

/-! ## 3. Blanks at the ends -/

/-- The text from its first to its last byte that is not a blank. -/
def trim (text : Bytes) : Bytes :=
  ((text.dropWhile isSpace).reverse.dropWhile isSpace).reverse

/-- Leading blanks do not matter. -/
theorem trim_append_left {l : Bytes} (hl : ∀ b ∈ l, isSpace b = true) (text : Bytes) :
    trim (l ++ text) = trim text := by
  simp only [trim, List.dropWhile_append_of_pos hl]

/-- Text whose first and last bytes are solid is left alone. -/
theorem trim_eq_self {text : Bytes} (hfirst : ∀ b, text.head? = some b → isSpace b = false)
    (hlast : ∀ b, text.getLast? = some b → isSpace b = false) : trim text = text := by
  have keep : ∀ s : Bytes, (∀ b, s.head? = some b → isSpace b = false) →
      s.dropWhile isSpace = s := by
    intro s hs
    cases s with
    | nil => rfl
    | cons b r => simp [hs b rfl]
  have hrev : text.reverse.dropWhile isSpace = text.reverse :=
    keep _ fun b hb => hlast b (by simpa using hb)
  rw [trim, keep text hfirst, hrev, List.reverse_reverse]

/-! ## 4. Zero bytes -/

/-- What stands before the first zero byte; all of it if there is none. -/
def beforeZero (text : Bytes) : Bytes :=
  text.takeWhile (· != 0)

/-- Text without a zero byte is left alone. -/
theorem beforeZero_eq_self {text : Bytes} (h : 0 ∉ text) : beforeZero text = text := by
  have nonzero : ∀ b ∈ text, (b != 0) = true := by
    intro b hb
    simpa using fun hz : b = 0 => h (hz ▸ hb)
  have all : (text ++ []).takeWhile (· != 0) = text ++ [] := List.takeWhile_append_of_pos nonzero
  simpa [beforeZero] using all

end PackedInts
