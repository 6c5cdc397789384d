import Mathlib
import PackedInts.Command.Request

/-!
# Widths and counts as they are written

A width and a count are written in decimal digits. The number that is written may be of any size; it
passes through a word of 64 bits, and a width through one of 32 bits behind that. On the way nothing
is cut off: a number that is too large for what it is given for is refused, under its own text or under
the largest number that can be named.

* `Numeral.Spells` -- a text that spells a number in decimal digits;
* `Numeral.spells_iff` -- what is read as a numeral spells the value that is read;
* `widthOfArgument_eq_ok_iff`, `widthOfArgument_of_wide`, `widthOfArgument_of_not_spells` -- what an
  argument comes to as a width; `countOfArgument_eq_ok_iff`, `countOfArgument_of_not_spells`, and as a
  count;
* `widthOfArgument_decimal`, `countOfArgument_decimal` -- numbers that are written out are read as
  such.
-/

namespace PackedInts

/-! ## 1. Decimal numbers -/

namespace Numeral

/-- The text spells the number in decimal digits, the most significant first. There is at least one
    digit, and any number of zeros may stand in front. -/
structure Spells (text : Bytes) (n : Nat) : Prop where
  nonempty : text ≠ []
  digits : ∀ b ∈ text, 48 ≤ b.toNat ∧ b.toNat ≤ 57
  number : Nat.ofDigits 10 (text.reverse.map fun b => b.toNat - 48) = n

variable {text : Bytes} {n : Nat}

theorem value_eq_ofDigits (text : Bytes) :
    value text = Nat.ofDigits 10 (text.reverse.map fun b => b.toNat - 48) := by
  induction text using List.reverseRecOn with
  | nil => rfl
  | append_singleton front b ih =>
    rw [value_append_singleton, List.reverse_append, List.reverse_singleton, List.singleton_append,
      List.map_cons, Nat.ofDigits_cons, ← ih, digitValue_eq]
    omega

/-- **What is read as a numeral spells the value that is read.** -/
theorem spells_iff : Spells text n ↔ isNumeral text = true ∧ value text = n := by
  have plain : isNumeral text = true ↔ text ≠ [] ∧ ∀ b ∈ text, 48 ≤ b.toNat ∧ b.toNat ≤ 57 := by
    unfold isNumeral
    simp only [Bool.and_eq_true, Bool.not_eq_true', List.isEmpty_eq_false_iff, List.all_eq_true,
      isDigit_iff]
  rw [plain, value_eq_ofDigits]
  exact ⟨fun h => ⟨⟨h.nonempty, h.digits⟩, h.number⟩, fun h => ⟨h.1.1, h.1.2, h.2⟩⟩

/-- **A number that is written out spells itself.** -/
theorem spells_decimal (n : Nat) : Spells (decimal n) n :=
  spells_iff.2 ⟨isNumeral_decimal n, value_decimal n⟩

end Numeral

theorem number?_eq_some_iff_spells {a : Bytes} {n : UInt64} :
    number? a = some n ↔ Numeral.Spells a n.toNat := by
  rw [number?_eq_some_iff, Numeral.spells_iff]

/-- No number is read exactly where none below `2 ^ 64` is spelled. -/
theorem number?_eq_none_iff {a : Bytes} :
    number? a = none ↔ ¬ ∃ v < 2 ^ 64, Numeral.Spells a v := by
  constructor
  · rintro none ⟨v, small, spelled⟩
    have word : v.toUInt64.toNat = v := Nat.mod_eq_of_lt small
    rw [← word] at spelled
    rw [number?_eq_some_iff_spells.2 spelled] at none
    cases none
  · intro unspelled
    refine Option.eq_none_iff_forall_ne_some.2 fun n read => ?_
    exact unspelled ⟨n.toNat, n.toNat_lt, number?_eq_some_iff_spells.1 read⟩

/-! ## 2. Widths and counts -/

section Argument

variable {a : Bytes} {v : Nat}

/-- A width is looked at under its own number, or under the largest one of 32 bits. -/
theorem toNat_askedWidth (n : UInt64) :
    (min n maxWidthNumber).toUInt32.toNat = min n.toNat (2 ^ 32 - 1) := by
  have largest : maxWidthNumber.toNat = 2 ^ 32 - 1 := by decide
  have smaller : (min n maxWidthNumber).toNat = min n.toNat maxWidthNumber.toNat := by
    show (if n ≤ maxWidthNumber then n else maxWidthNumber).toNat = _
    split
    · rename_i le
      rw [Nat.min_eq_left (UInt64.le_iff_toNat_le.1 le)]
    · rename_i not_le
      rw [Nat.min_eq_right (Nat.le_of_not_le (mt UInt64.le_iff_toNat_le.2 not_le))]
  rw [UInt64.toNat_toUInt32, smaller, largest]
  exact Nat.mod_eq_of_lt (Nat.lt_of_le_of_lt (Nat.min_le_right _ _) (by decide))

theorem widthOfArgument_of_spells (spelled : Numeral.Spells a v) (small : v < 2 ^ 64) :
    ∃ width : UInt32, width.toNat = min v (2 ^ 32 - 1) ∧
      widthOfArgument a = (BitWidth.ofUInt32 width).mapError .packing := by
  have word : v.toUInt64.toNat = v := Nat.mod_eq_of_lt small
  have read : number? a = some v.toUInt64 := by
    rw [number?_eq_some_iff_spells, word]
    exact spelled
  refine ⟨(min v.toUInt64 maxWidthNumber).toUInt32, ?_, ?_⟩
  · rw [toNat_askedWidth, word]
  · unfold widthOfArgument
    rw [read]

/-- **A number above eight is refused**, under its own name or under the largest that can be named. -/
theorem widthOfArgument_of_wide (spelled : Numeral.Spells a v) (wide : 8 < v) (small : v < 2 ^ 64) :
    ∃ width : UInt32, width.toNat = min v (2 ^ 32 - 1) ∧
      widthOfArgument a = .error (.packing (.unsupportedWidth width)) := by
  obtain ⟨width, named, asked⟩ := widthOfArgument_of_spells spelled small
  have beyond : 8 < width.toNat := by omega
  refine ⟨width, named, ?_⟩
  rw [asked, BitWidth.ofUInt32_eq_error_iff.2 ⟨beyond, rfl⟩]
  rfl

/-- **What spells no number of 64 bits is no width.** -/
theorem widthOfArgument_of_not_spells (unspelled : ¬ ∃ v < 2 ^ 64, Numeral.Spells a v) :
    widthOfArgument a = .error (.invalidWidth a) := by
  unfold widthOfArgument
  rw [number?_eq_none_iff.2 unspelled]

/-- **An argument is taken as a width exactly if it spells that width.** -/
theorem widthOfArgument_eq_ok_iff {w : BitWidth} :
    widthOfArgument a = .ok w ↔ Numeral.Spells a w.bits := by
  by_cases known : ∃ v < 2 ^ 64, Numeral.Spells a v
  · obtain ⟨v, small, spelled⟩ := known
    have same : Numeral.Spells a w.bits ↔ v = w.bits :=
      ⟨fun other => spelled.number.symm.trans other.number, fun h => h ▸ spelled⟩
    have narrow := w.bits_le
    obtain ⟨width, named, asked⟩ := widthOfArgument_of_spells spelled small
    have taken : widthOfArgument a = .ok w ↔ BitWidth.ofUInt32 width = .ok w := by
      rw [asked]
      cases BitWidth.ofUInt32 width with
      | ok w' =>
        show Except.ok w' = Except.ok w ↔ _
        rw [Except.ok.injEq, Except.ok.injEq]
      | error e => exact ⟨nofun, nofun⟩
    rw [taken, BitWidth.ofUInt32_eq_ok_iff, same, ← UInt32.toNat_inj, named, w.toNat_toUInt32]
    omega
  · rw [widthOfArgument_of_not_spells known]
    have bound : w.bits < 2 ^ 64 := Nat.lt_of_le_of_lt w.bits_le (by decide)
    exact ⟨nofun, fun spelled => absurd ⟨w.bits, bound, spelled⟩ known⟩

/-- **What spells no number of 64 bits is no count.** -/
theorem countOfArgument_of_not_spells (unspelled : ¬ ∃ v < 2 ^ 64, Numeral.Spells a v) :
    countOfArgument a = .error (.invalidCount a) := by
  unfold countOfArgument
  rw [number?_eq_none_iff.2 unspelled]

/-- **An argument is taken as a count exactly if it spells that count.** -/
theorem countOfArgument_eq_ok_iff {n : UInt64} :
    countOfArgument a = .ok n ↔ Numeral.Spells a n.toNat := by
  unfold countOfArgument
  rw [← number?_eq_some_iff_spells]
  cases number? a with
  | none => exact ⟨nofun, nofun⟩
  | some m => rw [Except.ok.injEq, Option.some.injEq]

/-- **A width that is written out is read as that width.** -/
theorem widthOfArgument_decimal (w : BitWidth) :
    widthOfArgument (Numeral.decimal w.bits) = .ok w :=
  widthOfArgument_eq_ok_iff.2 (Numeral.spells_decimal w.bits)

/-- **So is a count.** -/
theorem countOfArgument_decimal (small : v < 2 ^ 64) :
    countOfArgument (Numeral.decimal v) = .ok v.toUInt64 := by
  have word : v.toUInt64.toNat = v := Nat.mod_eq_of_lt small
  rw [countOfArgument_eq_ok_iff, word]
  exact Numeral.spells_decimal v

end Argument

end PackedInts
