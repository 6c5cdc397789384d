import Mathlib
import PackedInts.Width

/-!
# Registers as numbers

A packer and an unpacker work on 64-bit words. As long as nothing is shifted out at the top, a shift
is a product or a quotient, a mask is a remainder, and joining two words whose bits do not meet is a
sum.

* `toNat_shiftLeft_amount`, `toNat_shiftRight_amount` -- the shifts, by an amount below 64;
* `toNat_and_lowMask`, `toNat_maskedValue` -- the mask of the low bits;
* `toNat_or_of_aligned`, `and_eq_zero_of_aligned` -- two words whose bits do not meet;
* `toNat_shiftLeft_byte` -- a byte that is moved up.
-/

namespace PackedInts

/-- Counting one and then `n` is counting `n + 1`, also where the word wraps. -/
theorem add_one_add_toUInt64 (a : UInt64) (n : Nat) :
    a + 1 + n.toUInt64 = a + (n + 1).toUInt64 := by
  have succ : (n + 1).toUInt64 = n.toUInt64 + 1 := UInt64.ofNat_add n 1
  rw [succ, UInt64.add_assoc, UInt64.add_comm 1]

/-- The amount of a shift is the same number on a longer word. -/
theorem toUInt64_of_toNat_eq {x : UInt32} {k : Nat} (h : x.toNat = k) : x.toUInt64 = k.toUInt64 := by
  subst h
  exact UInt64.toNat_inj.1 (by simp)

theorem toNat_amount {k : Nat} (hk : k < 64) : k.toUInt64.toNat % 64 = k := by
  rw [UInt64.toNat_ofNat']
  omega

theorem toNat_shiftLeft_amount (x : UInt64) {k : Nat} (hk : k < 64) :
    (x <<< k.toUInt64).toNat = x.toNat * 2 ^ k % 2 ^ 64 := by
  rw [UInt64.toNat_shiftLeft, toNat_amount hk, Nat.shiftLeft_eq]

theorem toNat_shiftLeft_of_fits {x : UInt64} {k : Nat} (hk : k < 64)
    (fits : x.toNat * 2 ^ k < 2 ^ 64) : (x <<< k.toUInt64).toNat = x.toNat * 2 ^ k := by
  rw [toNat_shiftLeft_amount x hk, Nat.mod_eq_of_lt fits]

theorem toNat_shiftRight_amount (x : UInt64) {k : Nat} (hk : k < 64) :
    (x >>> k.toUInt64).toNat = x.toNat / 2 ^ k := by
  rw [UInt64.toNat_shiftRight, toNat_amount hk, Nat.shiftRight_eq_div_pow]

theorem toNat_lowMask {w : Nat} (hw : w < 64) : (lowMask w).toNat = 2 ^ w - 1 := by
  have bound : 2 ^ w < 2 ^ 64 := Nat.pow_lt_pow_right (by decide) hw
  have unit : ((1 : UInt64) <<< w.toUInt64).toNat = 2 ^ w := by
    rw [toNat_shiftLeft_of_fits hw (by simpa using bound)]
    simp
  have le : (1 : UInt64) ≤ 1 <<< w.toUInt64 := by
    rw [UInt64.le_iff_toNat_le, unit]
    exact Nat.one_le_two_pow
  rw [lowMask, UInt64.toNat_sub_of_le _ _ le, unit]
  rfl

/-- **The mask of the low bits leaves the remainder.** -/
theorem toNat_and_lowMask (x : UInt64) {w : Nat} (hw : w < 64) :
    (x &&& lowMask w).toNat = x.toNat % 2 ^ w := by
  rw [UInt64.toNat_and, toNat_lowMask hw, Nat.and_two_pow_sub_one_eq_mod]

/-- The low bits of a value on a word of its own. -/
theorem toNat_maskedValue (v : UInt32) {w : Nat} (hw : w < 64) :
    (v.toUInt64 &&& lowMask w).toNat = v.toNat % 2 ^ w := by
  rw [toNat_and_lowMask _ hw, UInt32.toNat_toUInt64]

/-- **Two words whose bits do not meet are joined by a sum.** -/
theorem toNat_or_of_aligned {x y : UInt64} {a k : Nat} (hx : x.toNat = a * 2 ^ k)
    (hy : y.toNat < 2 ^ k) : (x ||| y).toNat = a * 2 ^ k + y.toNat := by
  rw [UInt64.toNat_or, hx, Nat.mul_comm, ← Nat.two_pow_add_eq_or_of_lt hy]

/-- A word that ends in zero bits has none in common with a word of no more bits than these. -/
theorem and_eq_zero_of_aligned {x y : UInt64} {a k : Nat} (hx : x.toNat = a * 2 ^ k)
    (hy : y.toNat < 2 ^ k) : x &&& y = 0 := by
  apply UInt64.toNat_inj.1
  rw [UInt64.toNat_and, hx]
  refine Nat.eq_of_testBit_eq fun j => ?_
  rw [Nat.testBit_and, Nat.testBit_mul_two_pow, UInt64.toNat_zero, Nat.zero_testBit]
  by_cases low : k ≤ j
  · have above : y.toNat.testBit j = false :=
      Nat.testBit_lt_two_pow (Nat.lt_of_lt_of_le hy (Nat.pow_le_pow_right (by decide) low))
    rw [above, Bool.and_false]
  · rw [decide_eq_false low, Bool.false_and, Bool.false_and]

/-- A byte that is moved up stays within eight bits from its place on. -/
theorem byte_mul_lt (b : UInt8) (k : Nat) : b.toNat * 2 ^ k < 2 ^ (8 + k) := by
  rw [Nat.pow_add]
  exact Nat.mul_lt_mul_of_pos_right b.toNat_lt (Nat.two_pow_pos k)

/-- **A byte that is moved up within the word loses no bit.** -/
theorem byte_fits (b : UInt8) {k : Nat} (room : 8 + k ≤ 64) :
    b.toUInt64.toNat * 2 ^ k < 2 ^ 64 := by
  rw [UInt8.toNat_toUInt64]
  exact Nat.lt_of_lt_of_le (byte_mul_lt b k) (Nat.pow_le_pow_right (by decide) room)

theorem toNat_shiftLeft_byte (b : UInt8) {k : Nat} (room : 8 + k ≤ 64) :
    (b.toUInt64 <<< k.toUInt64).toNat = b.toNat * 2 ^ k := by
  rw [toNat_shiftLeft_of_fits (by omega) (byte_fits b room), UInt8.toNat_toUInt64]

end PackedInts
