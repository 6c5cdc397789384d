import Mathlib
import PackedInts.Width

/-!
# Packed sizes

So many bits take so many bytes, rounded up. The size of a packed list is computed on 64-bit words
behind a test by division. The test is exact: it refuses a count when, and only when, its bits
rounded up leave the word, so nothing that is computed behind it wraps.

* `byteCount_groups`, `byteCount_succ_mul` -- the bytes of whole groups, and those of one value more;
* `BitWidth.bits_le_of_lt`, `BitWidth.byteCount_le_of_le` -- the bits and the bytes within a group;
* `byteCount_eq_ceil` -- the bytes that bits take are an eighth of their number, rounded up;
* `sizeTest_iff` -- what the test by division says about unbounded numbers;
* `toNat_packedBits`, `toNat_packedSize` -- what is computed behind the test, where nothing wraps;
* `packedSize_eq` -- which counts and widths are refused, on unbounded numbers;
* `packedSize_of_fits` -- every count whose bits fit has a size, and it is the right one;
* **`packedSize_exact`** -- the size, its refusals and its bound are exact.
-/

namespace PackedInts

/-! ## 1. The bytes that bits take -/

theorem byteCount_eight_mul_add (q n : Nat) : byteCount (8 * q + n) = q + byteCount n := by
  simp only [byteCount]
  omega

theorem byteCount_eight_mul (q : Nat) : byteCount (8 * q) = q :=
  byteCount_eight_mul_add q 0

theorem byteCount_mono {m n : Nat} (h : m ≤ n) : byteCount m ≤ byteCount n := by
  simp only [byteCount]
  omega

theorem le_eight_mul_byteCount (n : Nat) : n ≤ 8 * byteCount n := by
  simp only [byteCount]
  omega

/-- **The bytes that bits take are an eighth of their number**, rounded up. -/
theorem byteCount_eq_ceil (n : Nat) : byteCount n = ⌈(n : ℚ) / 8⌉₊ := by
  refine eq_of_forall_ge_iff fun m => ?_
  have bits : (n : ℚ) / 8 ≤ m ↔ n ≤ m * 8 := by
    rw [div_le_iff₀ (by norm_num)]
    exact_mod_cast Iff.rfl
  rw [Nat.ceil_le, bits]
  simp only [byteCount]
  omega

/-- One more value reaches at most one byte further. -/
theorem byteCount_succ_mul (w : BitWidth) (m : Nat) :
    byteCount ((m + 1) * w.bits) = byteCount (m * w.bits) ∨
      byteCount ((m + 1) * w.bits) = byteCount (m * w.bits) + 1 := by
  have narrow := w.bits_le
  rw [Nat.succ_mul]
  simp only [byteCount]
  omega

/-- Whole groups take whole bytes. -/
theorem byteCount_groups (w : BitWidth) (q i : Nat) :
    byteCount ((q * w.groupValues + i) * w.bits) = q * w.groupBytes + byteCount (i * w.bits) := by
  rw [Nat.add_mul, Nat.mul_assoc, w.values_mul_bits, Nat.mul_left_comm, byteCount_eight_mul_add]

/-- Behind fewer values than a group's, the bits of one more are within the group. -/
theorem BitWidth.bits_le_of_lt (w : BitWidth) {n : Nat} (h : n < w.groupValues) :
    n * w.bits + w.bits ≤ 8 * w.groupBytes := by
  rw [← w.values_mul_bits, ← Nat.succ_mul]
  exact Nat.mul_le_mul_right _ h

/-- The bytes of at most a group's values are within the group. -/
theorem BitWidth.byteCount_le_of_le (w : BitWidth) {n : Nat} (h : n ≤ w.groupValues) :
    byteCount (n * w.bits) ≤ w.groupBytes := by
  rw [← byteCount_eight_mul w.groupBytes, ← w.values_mul_bits]
  exact byteCount_mono (Nat.mul_le_mul_right _ h)

/-! ## 2. The size of a list -/

section Word

variable {count : UInt64} {width : UInt32}

/-- **The test by division is exact**: it refuses a count when its bits rounded up leave the word. -/
theorem sizeTest_iff (positive : 0 < width.toNat) :
    (maxSize - 7) / width.toUInt64 < count ↔ 2 ^ 64 ≤ count.toNat * width.toNat + 7 := by
  have top : (maxSize - 7).toNat = 2 ^ 64 - 8 := by decide
  rw [UInt64.lt_iff_toNat_lt, UInt64.toNat_div, UInt32.toNat_toUInt64, top,
    Nat.div_lt_iff_lt_mul positive]
  omega

/-- Neither the product nor the sum wraps that the size is computed from. -/
theorem toNat_packedBits (fits : count.toNat * width.toNat + 7 < 2 ^ 64) :
    (count * width.toUInt64).toNat = count.toNat * width.toNat ∧
      (count * width.toUInt64 + 7).toNat = count.toNat * width.toNat + 7 := by
  have product : (count * width.toUInt64).toNat = count.toNat * width.toNat := by
    rw [UInt64.toNat_mul, UInt32.toNat_toUInt64, Nat.mod_eq_of_lt (by omega)]
  refine ⟨product, ?_⟩
  rw [UInt64.toNat_add, product]
  exact Nat.mod_eq_of_lt fits

/-- **Where nothing wraps, the size is the bits in bytes**, rounded up. -/
theorem toNat_packedSize (fits : count.toNat * width.toNat + 7 < 2 ^ 64) :
    ((count * width.toUInt64 + 7) / 8).toNat = byteCount (count.toNat * width.toNat) := by
  rw [UInt64.toNat_div, (toNat_packedBits fits).2]
  rfl

/-- **The size on unbounded numbers**: which counts and widths are refused, and under what. -/
theorem packedSize_eq (count : UInt64) (width : UInt32) :
    packedSize count width =
      if 8 < width.toNat then .error (.unsupportedWidth width)
      else if 2 ^ 64 - 1 < count.toNat * width.toNat + 7 then .error (.sizeOverflow count width)
      else .ok ((count * width.toUInt64 + 7) / 8) := by
  have wide : 8 < width ↔ 8 < width.toNat := UInt32.lt_iff_toNat_lt
  have refused : width ≠ 0 ∧ (maxSize - 7) / width.toUInt64 < count ↔
      2 ^ 64 - 1 < count.toNat * width.toNat + 7 := by
    -- at width zero there is nothing to divide by, and no count is too large
    rcases Nat.eq_zero_or_pos width.toNat with zero | positive
    · have none : width = 0 := UInt32.toNat_inj.1 zero
      simp [none]
    · have nonzero : width ≠ 0 := by
        rintro rfl
        exact absurd positive (Nat.lt_irrefl 0)
      rw [sizeTest_iff positive]
      exact ⟨fun refused => by omega, fun leaves => ⟨nonzero, by omega⟩⟩
  unfold packedSize
  simp only [wide, refused]

theorem packedSize_of_fits (supported : width.toNat ≤ 8)
    (fits : count.toNat * width.toNat + 7 < 2 ^ 64) :
    ∃ size, packedSize count width = .ok size ∧
      size.toNat = byteCount (count.toNat * width.toNat) := by
  refine ⟨_, ?_, toNat_packedSize fits⟩
  rw [packedSize_eq, if_neg (Nat.not_lt.2 supported), if_neg (by omega)]

end Word

/-- **The size of a packed list is exact.** It is refused under the width exactly if the width is
    above eight, and under the count exactly if the bits rounded up are more than a 64-bit word can
    say. In every other case it is an eighth of the bits, rounded up, and neither the product nor the
    sum that it is computed from wraps. -/
theorem packedSize_exact (count : UInt64) (width : UInt32) :
    (∀ e, packedSize count width = .error e ↔
      8 < width.toNat ∧ e = .unsupportedWidth width ∨
      width.toNat ≤ 8 ∧ 2 ^ 64 - 1 < count.toNat * width.toNat + 7 ∧
        e = .sizeOverflow count width) ∧
    (∀ size, packedSize count width = .ok size ↔
      width.toNat ≤ 8 ∧ count.toNat * width.toNat + 7 ≤ 2 ^ 64 - 1 ∧
        size.toNat = ⌈(count.toNat * width.toNat : ℚ) / 8⌉₊) ∧
    ∀ size, packedSize count width = .ok size →
      (count * width.toUInt64).toNat = count.toNat * width.toNat ∧
      (count * width.toUInt64 + 7).toNat = count.toNat * width.toNat + 7 := by
  rw [packedSize_eq, ← Nat.cast_mul, ← byteCount_eq_ceil]
  split_ifs with unsupported leaves
  · refine ⟨fun e => ?_, fun size => ?_, fun size => ?_⟩ <;> grind
  · refine ⟨fun e => ?_, fun size => ?_, fun size => ?_⟩ <;> grind
  · have fits : count.toNat * width.toNat + 7 < 2 ^ 64 := by omega
    refine ⟨fun e => by grind, fun size => ?_, fun size _ => toNat_packedBits fits⟩
    rw [Except.ok.injEq, ← UInt64.toNat_inj, toNat_packedSize fits]
    grind

/-- The largest count of values of three bits that has a size, the count behind it, and a width that
    is not supported. -/
theorem packedSize_exact_at_the_edge :
    packedSize 6148914691236517202 3 = .ok 2305843009213693951 ∧
      packedSize 6148914691236517203 3 = .error (.sizeOverflow 6148914691236517203 3) ∧
      packedSize 1 9 = .error (.unsupportedWidth 9) := by
  have last := (packedSize_exact 6148914691236517202 3).2.1 2305843009213693951
  rw [← Nat.cast_mul, ← byteCount_eq_ceil] at last
  exact ⟨last.2 (by decide),
    ((packedSize_exact 6148914691236517203 3).1 _).2 (.inr ⟨by decide, by decide, rfl⟩),
    ((packedSize_exact 1 9).1 _).2 (.inl ⟨by decide, rfl⟩)⟩

end PackedInts
