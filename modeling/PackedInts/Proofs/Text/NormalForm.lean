import PackedInts.Proofs.Text.ValueTokens

/-!
# The normal form of a list of values

A list of values can be written in many ways: with leading zeros, with commas or blanks, with any
number of them. Its normal form has each value without leading zeros on a line of its own. What is
written that way is read back, so the normal form tells the list, and the list the normal form.

* `readToken_decimal` -- the numeral of a value is read as the value;
* `parse_line`, `parse_format_eq` -- so are lines, one by one;
* `format_injective` -- different lists are written differently;
* `normalForm` -- the normal form of a text;
* **`parse_format`** -- reading back, and which texts have the same normal form.
-/

namespace PackedInts.ValueList

/-! ## 1. Lines -/

/-- A digit separates nothing. -/
theorem not_separates_of_isDigit {b : UInt8} (digit : isDigit b = true) :
    separatesValues b = false :=
  forall_byte (P := fun b => isDigit b = true → separatesValues b = false) (by decide +kernel) b
    digit

theorem isDigit_of_mem_decimal {n : Nat} {b : UInt8} (member : b ∈ Numeral.decimal n) :
    isDigit b = true := by
  have numeral := Numeral.isNumeral_decimal n
  unfold Numeral.isNumeral at numeral
  exact List.all_eq_true.1 (Bool.and_eq_true_iff.1 numeral).2 b member

theorem decimal_ne_nil (n : Nat) : Numeral.decimal n ≠ [] := by
  intro empty
  have numeral := Numeral.isNumeral_decimal n
  rw [empty] at numeral
  cases numeral

/-- **The numeral of a value is read as the value.** -/
theorem readToken_decimal (v : UInt32) : readToken (Numeral.decimal v.toNat) = .ok v := by
  have number := Numeral.value_decimal v.toNat
  refine readToken_eq_ok_iff.2 ⟨⟨fun b member => isDigit_of_mem_decimal member, ?_⟩, number.symm⟩
  rw [number]
  exact Nat.le_pred_of_lt v.toNat_lt

/-- **A line in front is the first value.** -/
theorem parse_line (v : UInt32) (text : Bytes) :
    parse (line v ++ text) = (parse text).map (v :: ·) := by
  have newline : separatesValues 10 = true := by decide
  have ended : ∀ b, (10 :: text).head? = some b → separatesValues b = true := by
    rintro b ⟨⟩
    exact newline
  have solid : ∀ b ∈ Numeral.decimal v.toNat, separatesValues b = false :=
    fun b member => not_separates_of_isDigit (isDigit_of_mem_decimal member)
  have split : line v ++ text = Numeral.decimal v.toNat ++ 10 :: text :=
    List.append_assoc (Numeral.decimal v.toNat) [10] text
  rw [split, parse_append_token (decimal_ne_nil _) solid ended, readToken_decimal,
    parse_separator newline]
  rfl

/-- **What is written is read back.** -/
theorem parse_format_eq (vs : List UInt32) : parse (format vs) = .ok vs := by
  induction vs with
  | nil => exact parse_nil
  | cons v vs ih =>
    rw [format_cons, parse_line, ih]
    rfl

/-- Different lists are written differently. -/
theorem format_injective : Function.Injective format := by
  intro vs vs' same
  have read := parse_format_eq vs
  rw [same, parse_format_eq] at read
  exact (Except.ok.inj read).symm

/-! ## 2. Normal forms -/

/-- The normal form of a text: its values, each on a line of its own. -/
def normalForm (text : Bytes) : Except Error Bytes :=
  (parse text).map format

theorem normalForm_of_parse {text : Bytes} {vs : List UInt32} (read : parse text = .ok vs) :
    normalForm text = .ok (format vs) := by
  rw [normalForm, read]
  rfl

/-- **Lists that are written are read back.** Every text that is read has a normal form, which is read
    as the same list and is its own normal form; and two such texts have the same normal form exactly
    if they are read as the same list. -/
theorem parse_format :
    (∀ vs, parse (format vs) = .ok vs) ∧
      (∀ text vs, parse text = .ok vs → normalForm text = .ok (format vs) ∧
        parse (format vs) = .ok vs ∧ normalForm (format vs) = .ok (format vs)) ∧
      ∀ text text' vs vs', parse text = .ok vs → parse text' = .ok vs' →
        (normalForm text = normalForm text' ↔ vs = vs') := by
  refine ⟨parse_format_eq, fun text vs read => ?_, fun text text' vs vs' read read' => ?_⟩
  · have back := parse_format_eq vs
    exact ⟨normalForm_of_parse read, back, normalForm_of_parse back⟩
  · rw [normalForm_of_parse read, normalForm_of_parse read', Except.ok.injEq]
    exact format_injective.eq_iff

/-- Two ways to write a list with zero and the largest value, and their normal form. -/
theorem parse_format_two_texts :
    parse (ascii "00,4294967295") = .ok [0, 4294967295] ∧
      parse (ascii "\t0 , 04294967295\n") = .ok [0, 4294967295] ∧
      normalForm (ascii "00,4294967295") = .ok (ascii "0\n4294967295\n") ∧
      normalForm (ascii "00,4294967295") = normalForm (ascii "\t0 , 04294967295\n") := by
  have read : parse (ascii "00,4294967295") = .ok [0, 4294967295] := by decide +kernel
  have read' : parse (ascii "\t0 , 04294967295\n") = .ok [0, 4294967295] := by decide +kernel
  have lines : format [0, 4294967295] = ascii "0\n4294967295\n" := by decide +kernel
  obtain ⟨-, form, same⟩ := parse_format
  refine ⟨read, read', ?_, (same _ _ _ _ read read').2 rfl⟩
  rw [← lines]
  exact (form _ _ read).1

end PackedInts.ValueList
