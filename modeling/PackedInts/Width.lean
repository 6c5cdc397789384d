import PackedInts.Error

/-!
# Widths, groups and packed sizes

A value is packed into a fixed number of bits, zero to eight. The smallest run of values whose
bits fill whole bytes is a *group*; all work on registers is done group by group.

* `BitWidth` -- a supported width; `BitWidth.ofUInt32` checks one that was asked for;
* `lowMask` -- the largest value of a width, as a mask;
* `commonDivisor` -- the greatest common divisor of two words;
* `ValueGroup` -- how many values and how many bytes make a group;
* `packedSize` -- the bytes that a number of values takes, in 64-bit arithmetic that refuses
  what it cannot say.

Main statements: `BitWidth.ofUInt32_eq_error_iff`, a width is refused exactly above eight;
`toNat_commonDivisor`, the divisor is the greatest common one; `BitWidth.values_mul_bits`, a group's
bits fill its bytes exactly.
-/

namespace PackedInts

/-! ## 1. Widths -/

/-- A supported width in bits. -/
structure BitWidth where
  bits : Nat
  bits_le : bits ≤ 8 := by decide
  deriving DecidableEq, Repr

namespace BitWidth

/-- The supported width of that many bits; any other is refused under its own number. -/
def ofUInt32 (width : UInt32) : Except PackingError BitWidth :=
  if h : width.toNat ≤ 8 then .ok ⟨width.toNat, h⟩ else .error (.unsupportedWidth width)

def toUInt32 (w : BitWidth) : UInt32 :=
  w.bits.toUInt32

@[simp] theorem toNat_toUInt32 (w : BitWidth) : w.toUInt32.toNat = w.bits := by
  have := w.bits_le
  simp [toUInt32]
  omega

theorem toUInt32_supported (w : BitWidth) : w.toUInt32.toNat ≤ 8 := by
  rw [w.toNat_toUInt32]
  exact w.bits_le

@[simp] theorem ofUInt32_toUInt32 (w : BitWidth) : ofUInt32 w.toUInt32 = .ok w := by
  simp [ofUInt32, w.bits_le]

/-- **A width is refused exactly when it is above eight**, and the refusal names it. -/
theorem ofUInt32_eq_error_iff {width : UInt32} {e : PackingError} :
    ofUInt32 width = .error e ↔ 8 < width.toNat ∧ e = .unsupportedWidth width := by
  unfold ofUInt32
  split
  · simp; omega
  · simp [eq_comm]; omega

/-- A width is taken exactly when it is at most eight, and keeps its number. -/
theorem ofUInt32_eq_ok_iff {width : UInt32} {w : BitWidth} :
    ofUInt32 width = .ok w ↔ width = w.toUInt32 := by
  constructor
  · intro h
    unfold ofUInt32 at h
    split at h
    · cases h
      apply UInt32.toNat_inj.1
      simp
    · cases h
  · rintro rfl
    exact ofUInt32_toUInt32 w

end BitWidth

/-- The mask of the low `width` bits, for a width below 64. -/
def lowMask (width : Nat) : UInt64 :=
  (1 <<< width.toUInt64) - 1

/-! ## 2. Groups -/

/-- The greatest common divisor of two numbers, by repeated remainders; that of zero and zero is
    zero. -/
@[semireducible] def commonDivisor (a b : UInt32) : UInt32 :=
  if b = 0 then a else commonDivisor b (a % b)
termination_by b.toNat
decreasing_by
  rename_i nonzero
  rw [UInt32.toNat_mod]
  exact Nat.mod_lt _ (Nat.pos_of_ne_zero fun zero => nonzero (UInt32.toNat_inj.1 zero))

/-- **The repeated remainders come to the greatest common divisor.** -/
theorem toNat_commonDivisor (a b : UInt32) :
    (commonDivisor a b).toNat = Nat.gcd a.toNat b.toNat := by
  fun_induction commonDivisor a b with
  | case1 a => exact (Nat.gcd_zero_right a.toNat).symm
  | case2 a b nonzero ih =>
    rw [ih, UInt32.toNat_mod, Nat.gcd_comm, ← Nat.gcd_rec, Nat.gcd_comm]

/-- A run of values that fills whole bytes. -/
structure ValueGroup where
  values : Nat
  bytes : Nat
  deriving DecidableEq, Repr

/-- The smallest group of a width. At width zero nothing is ever stored and above eight nothing is
    supported, so there the group is empty. -/
def ValueGroup.ofBits (bits : Nat) : ValueGroup :=
  if bits = 0 ∨ 8 < bits then ⟨0, 0⟩
  else
    let values := 8 / (commonDivisor bits.toUInt32 8).toNat
    ⟨values, bits * values / 8⟩

namespace BitWidth

def groupValues (w : BitWidth) : Nat :=
  (ValueGroup.ofBits w.bits).values

def groupBytes (w : BitWidth) : Nat :=
  (ValueGroup.ofBits w.bits).bytes

/-- **The bits of a group fill its bytes exactly.** -/
theorem values_mul_bits (w : BitWidth) : w.groupValues * w.bits = 8 * w.groupBytes := by
  unfold groupValues groupBytes ValueGroup.ofBits
  split
  · exact Nat.zero_mul w.bits
  · have divisor : (commonDivisor w.bits.toUInt32 8).toNat = w.bits.gcd 8 := by
      show (commonDivisor w.toUInt32 8).toNat = _
      rw [toNat_commonDivisor, w.toNat_toUInt32]
      rfl
    -- the bits of the group are the least common multiple of the width and of a byte
    have whole : w.bits * (8 / w.bits.gcd 8) = 8 * (w.bits / w.bits.gcd 8) := by
      rw [← Nat.mul_div_assoc _ (Nat.gcd_dvd_right w.bits 8),
        ← Nat.mul_div_assoc _ (Nat.gcd_dvd_left w.bits 8), Nat.mul_comm]
    dsimp only
    rw [divisor, Nat.mul_comm, whole, Nat.mul_div_cancel_left _ (by decide)]

/-- A group of a positive width has between one and eight values, and its bytes fit a 64-bit
    register with a byte to spare. -/
theorem group_bounds (w : BitWidth) (h : 0 < w.bits) :
    0 < w.groupValues ∧ w.groupValues ≤ 8 ∧ 0 < w.groupBytes ∧ 8 * w.groupBytes ≤ 56 := by
  have all : ∀ bits < 9, 0 < bits → 0 < (ValueGroup.ofBits bits).values
      ∧ (ValueGroup.ofBits bits).values ≤ 8 ∧ 0 < (ValueGroup.ofBits bits).bytes
      ∧ 8 * (ValueGroup.ofBits bits).bytes ≤ 56 := by decide
  exact all w.bits (Nat.lt_succ_of_le w.bits_le) h

theorem groupValues_le (w : BitWidth) : w.groupValues ≤ 8 := by
  have all : ∀ bits < 9, (ValueGroup.ofBits bits).values ≤ 8 := by decide
  exact all w.bits (Nat.lt_succ_of_le w.bits_le)

theorem eight_mul_groupBytes_le (w : BitWidth) : 8 * w.groupBytes ≤ 56 := by
  have all : ∀ bits < 9, 8 * (ValueGroup.ofBits bits).bytes ≤ 56 := by decide
  exact all w.bits (Nat.lt_succ_of_le w.bits_le)

end BitWidth

/-! ## 3. Packed sizes -/

/-- The bytes that hold `bits` bits. -/
def byteCount (bits : Nat) : Nat :=
  (bits + 7) / 8

def maxSize : UInt64 :=
  0xFFFFFFFFFFFFFFFF

/-- The bytes that `count` values of a width take once they are packed. The product and the
    rounding are done on 64-bit words, after a test that refuses every count for which they would
    leave them. -/
def packedSize (count : UInt64) (width : UInt32) : Except PackingError UInt64 :=
  if 8 < width then .error (.unsupportedWidth width)
  else if width ≠ 0 ∧ (maxSize - 7) / width.toUInt64 < count then
    .error (.sizeOverflow count width)
  else .ok ((count * width.toUInt64 + 7) / 8)

end PackedInts
