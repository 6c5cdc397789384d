import PackedInts.Text.Bytes

/-!
# Numerals

Natural numbers written with digits, most significant first and without leading zeros.

* `Numeral.digits` -- the digits of a number to a base;
* `Numeral.decimal`, `Numeral.hexadecimal` -- its text to base ten and sixteen;
* `Numeral.value` -- the number that a run of decimal digits spells, leading zeros allowed.

Main statement: `Numeral.value_decimal`, what is written reads back.
-/

namespace PackedInts.Numeral

/-! ## 1. Writing -/

/-- The digits of `n` to `base`, the most significant first; zero has one digit. -/
def digits (base n : Nat) : List Nat :=
  if _h : 2 ≤ base ∧ base ≤ n then digits base (n / base) ++ [n % base] else [n]
termination_by n
decreasing_by exact Nat.div_lt_self (by omega) (by omega)

/-- The character of a digit: `0` to `9`, then `A`, `B`, and so on. -/
def glyph (digit : Nat) : UInt8 :=
  if digit < 10 then '0'.toUInt8 + digit.toUInt8 else 'A'.toUInt8 + (digit - 10).toUInt8

def decimal (n : Nat) : Bytes :=
  (digits 10 n).map glyph

/-- The hexadecimal text of `n`, in capital letters. -/
def hexadecimal (n : Nat) : Bytes :=
  (digits 16 n).map glyph

/-! ## 2. Reading -/

/-- The number a digit stands for. -/
def digitValue (b : UInt8) : Nat :=
  b.toNat - '0'.toNat

/-- The number that a run of decimal digits spells. -/
def value (text : Bytes) : Nat :=
  text.foldl (fun n b => n * 10 + digitValue b) 0

/-- Whether the text is a run of at least one decimal digit and nothing else. -/
def isNumeral (text : Bytes) : Bool :=
  !text.isEmpty && text.all isDigit

/-! ## 3. What is written reads back -/

theorem isDigit_iff (b : UInt8) : isDigit b = true ↔ 48 ≤ b.toNat ∧ b.toNat ≤ 57 := by
  unfold isDigit
  rw [Bool.and_eq_true, decide_eq_true_iff, decide_eq_true_iff, UInt8.le_iff_toNat_le,
    UInt8.le_iff_toNat_le]
  rfl

theorem digitValue_eq (b : UInt8) : digitValue b = b.toNat - 48 := rfl

@[simp] theorem value_nil : value [] = 0 := rfl

@[simp] theorem value_append_singleton (text : Bytes) (b : UInt8) :
    value (text ++ [b]) = value text * 10 + digitValue b := by
  simp [value]

/-- The digit written for a number below ten stands for that number. -/
theorem digitValue_glyph {d : Nat} (h : d < 10) : digitValue (glyph d) = d := by
  simp [digitValue, glyph, h, Char.toUInt8]
  omega

/-- A digit below ten is written as a decimal digit. -/
theorem isDigit_glyph {d : Nat} (h : d < 10) : isDigit (glyph d) = true := by
  have : d = 0 ∨ d = 1 ∨ d = 2 ∨ d = 3 ∨ d = 4 ∨ d = 5 ∨ d = 6 ∨ d = 7 ∨ d = 8 ∨ d = 9 := by omega
  rcases this with h | h | h | h | h | h | h | h | h | h <;> subst h <;> decide

/-- Ten and more: the last digit is split off. -/
theorem decimal_of_ge {n : Nat} (h : 10 ≤ n) : decimal n = decimal (n / 10) ++ [glyph (n % 10)] := by
  rw [decimal, digits, dif_pos ⟨by omega, h⟩, List.map_append]
  rfl

/-- Below ten the text is one digit. -/
theorem decimal_of_lt {n : Nat} (h : n < 10) : decimal n = [glyph n] := by
  rw [decimal, digits, dif_neg (by omega)]
  rfl

/-- **The decimal text of a number spells that number.** -/
theorem value_decimal (n : Nat) : value (decimal n) = n := by
  induction n using Nat.strongRecOn with
  | ind n ih =>
    by_cases h : n < 10
    · rw [decimal_of_lt h]
      exact (value_append_singleton [] _).trans (by simp [digitValue_glyph h])
    · rw [decimal_of_ge (by omega), value_append_singleton, ih (n / 10) (by omega),
        digitValue_glyph (Nat.mod_lt _ (by omega))]
      omega

theorem isNumeral_decimal (n : Nat) : isNumeral (decimal n) = true := by
  induction n using Nat.strongRecOn with
  | ind n ih =>
    by_cases h : n < 10
    · simp [decimal_of_lt h, isNumeral, isDigit_glyph h]
    · have hr := ih (n / 10) (by omega)
      simp only [isNumeral, Bool.and_eq_true] at hr
      simp [decimal_of_ge (Nat.le_of_not_lt h), isNumeral,
        isDigit_glyph (Nat.mod_lt n (by omega : 0 < 10)), hr.2]

end PackedInts.Numeral
