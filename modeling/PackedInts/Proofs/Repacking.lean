import PackedInts.Proofs.RoundTrip

/-!
# Packing what was unpacked

Any bytes can be unpacked, also such as no packer made. Packing the values again gives the bytes
that the values reach into, in which only the bits behind the last value are cleared.

* `Bits.ofValues_windows` -- the windows of a bit string, read as values, are its bits again;
* `Bits.clearLast` -- bytes of which the last one has its low bits cleared;
* `Bits.ofBytes_clearLast` -- what this does to their bits;
* `Bits.toBytes_pad_take` -- the first bits of bytes, filled up with zeros, are such bytes;
* **`pack_unpack`** -- packing what was unpacked, and when this gives the bytes themselves.
-/

namespace PackedInts

namespace Bits

/-! ## 1. Windows as values -/

/-- **The windows of a bit string, read as values, are its bits again.** -/
theorem ofValues_windows {w : Nat} (narrow : w ≤ 32) {bits : List Bool} {n : Nat}
    (inside : n * w ≤ bits.length) :
    ofValues w ((List.range n).map fun k => (window bits (k * w) w).toUInt32)
      = bits.take (n * w) := by
  induction n with
  | zero => rw [Nat.zero_mul, List.take_zero]; rfl
  | succ n ih =>
    rw [Nat.succ_mul] at inside ⊢
    have lt : window bits (n * w) w < 2 ^ 32 :=
      Nat.lt_of_lt_of_le (window_lt _ _ _) (Nat.pow_le_pow_right (by decide) narrow)
    have value : (window bits (n * w) w).toUInt32.toNat = window bits (n * w) w :=
      Nat.mod_eq_of_lt lt
    rw [List.range_succ, List.map_append, List.map_singleton, ofValues_append,
      ih (Nat.le_of_add_right_le inside), ofValues_cons, ofValues_nil, List.append_nil, value,
      ofNat_window inside, ← List.take_add]

/-! ## 2. Bits behind the last value -/

/-- The byte with its low `k` bits set to zero. -/
def clearLow (k : Nat) (x : UInt8) : UInt8 :=
  (x.toNat / 2 ^ k * 2 ^ k).toUInt8

/-- The bytes, the last one with its low `k` bits set to zero. -/
def clearLast (k : Nat) : Bytes → Bytes
  | [] => []
  | [x] => [clearLow k x]
  | x :: y :: rest => x :: clearLast k (y :: rest)

theorem ofNat_clearLow {k : Nat} (h : k ≤ 8) (x : UInt8) :
    ofNat 8 (clearLow k x).toNat = (ofNat 8 x.toNat).take (8 - k) ++ List.replicate k false := by
  have hx := x.toNat_lt
  have le : x.toNat / 2 ^ k * 2 ^ k ≤ x.toNat := Nat.div_mul_le_self _ _
  have value : (clearLow k x).toNat = x.toNat / 2 ^ k * 2 ^ k :=
    Nat.mod_eq_of_lt (Nat.lt_of_le_of_lt le hx)
  have split : ∀ y, ofNat 8 y = ofNat (8 - k) (y / 2 ^ k) ++ ofNat k y := by
    intro y
    rw [← ofNat_add, Nat.sub_add_cancel h]
  have zeros : ofNat k (x.toNat / 2 ^ k * 2 ^ k) = List.replicate k false := by
    rw [← ofNat_mod, Nat.mul_mod_left, ofNat_zero]
  rw [value, split, split x.toNat, zeros, Nat.mul_div_cancel _ (Nat.two_pow_pos k),
    List.take_left' (length_ofNat _ _)]

/-- **Clearing the low bits of the last byte** puts zeros in the place of the last bits. -/
theorem ofBytes_clearLast {k : Nat} (h : k ≤ 8) : ∀ {bytes : Bytes}, bytes ≠ [] →
    ofBytes (clearLast k bytes)
      = (ofBytes bytes).take (8 * bytes.length - k) ++ List.replicate k false
  | [], nonempty => absurd rfl nonempty
  | [x], _ => by
    rw [clearLast, ofBytes_cons, ofBytes_nil, List.append_nil, ofNat_clearLow h, ofBytes_cons,
      ofBytes_nil, List.append_nil]
    rfl
  | x :: y :: rest, _ => by
    have front : 8 * (x :: y :: rest).length - k
        = (ofNat 8 x.toNat).length + (8 * (y :: rest).length - k) := by
      rw [length_ofNat, List.length_cons, List.length_cons]
      omega
    rw [clearLast, ofBytes_cons, ofBytes_clearLast h (List.cons_ne_nil y rest),
      ofBytes_cons x (y :: rest), front, List.take_length_add_append, List.append_assoc]

/-! ## 3. The first bits of bytes -/

theorem missing_le_eight (n : Nat) : missing n ≤ 8 := by
  simp only [missing, byteCount]
  omega

/-- Whole bytes without the bits that are missing. -/
theorem eight_mul_byteCount_sub_missing (n : Nat) : 8 * byteCount n - missing n = n :=
  Nat.sub_sub_self (le_eight_mul_byteCount n)

section First

variable {bytes : Bytes} {n : Nat}

theorem length_take_ofBytes (inside : n ≤ 8 * bytes.length) :
    ((ofBytes bytes).take n).length = n := by
  rw [List.length_take, length_ofBytes, Nat.min_eq_left inside]

theorem pad_take_ofBytes (inside : n ≤ 8 * bytes.length) :
    pad ((ofBytes bytes).take n)
      = (ofBytes bytes).take n ++ List.replicate (missing n) false := by
  rw [pad, length_take_ofBytes inside]

/-- **The first bits of bytes, filled up with zeros**, are the bytes that they reach into, the last
    one with its other bits cleared. -/
theorem toBytes_pad_take (inside : n ≤ 8 * bytes.length) :
    toBytes (pad ((ofBytes bytes).take n))
      = clearLast (missing n) (bytes.take (byteCount n)) := by
  by_cases empty : n = 0
  · subst empty
    rw [List.take_zero, show byteCount 0 = 0 from rfl, List.take_zero]
    rfl
  have reach : byteCount n ≤ bytes.length := by
    simp only [byteCount]
    omega
  have len : (bytes.take (byteCount n)).length = byteCount n := by
    rw [List.length_take, Nat.min_eq_left reach]
  have nonempty : bytes.take (byteCount n) ≠ [] := by
    intro none
    rw [none] at len
    simp only [byteCount, List.length_nil] at len
    omega
  have bits : ofBytes (clearLast (missing n) (bytes.take (byteCount n)))
      = pad ((ofBytes bytes).take n) := by
    rw [ofBytes_clearLast (missing_le_eight n) nonempty, len, eight_mul_byteCount_sub_missing,
      ofBytes_take, List.take_take, Nat.min_eq_left (le_eight_mul_byteCount n),
      pad_take_ofBytes inside]
  rw [← bits, toBytes_ofBytes]

/-- The first bits of bytes, filled up with zeros, are the bytes themselves exactly if these end
    where the bits do and have zeros behind them. -/
theorem toBytes_pad_take_eq_iff (inside : n ≤ 8 * bytes.length) :
    toBytes (pad ((ofBytes bytes).take n)) = bytes ↔
      bytes.length = byteCount n ∧ ∀ bit ∈ (ofBytes bytes).drop n, bit = false := by
  constructor
  · intro same
    have length := length_toBytes_pad ((ofBytes bytes).take n)
    rw [same, length_take_ofBytes inside] at length
    have bits := ofBytes_toBytes_pad ((ofBytes bytes).take n)
    rw [same, pad_take_ofBytes inside] at bits
    have behind : (ofBytes bytes).drop n = List.replicate (missing n) false :=
      List.append_cancel_left ((List.take_append_drop n _).trans bits)
    refine ⟨length, fun bit member => ?_⟩
    rw [behind] at member
    exact List.eq_of_mem_replicate member
  · rintro ⟨length, zeros⟩
    have behind : (ofBytes bytes).drop n = List.replicate (missing n) false := by
      refine List.eq_replicate_iff.2 ⟨?_, zeros⟩
      rw [List.length_drop, length_ofBytes, length, missing]
    rw [pad_take_ofBytes inside, ← behind, List.take_append_drop, toBytes_ofBytes]

end First

end Bits

/-! ## 4. Packing again -/

/-- **Packing what was unpacked** gives the bytes that the values reach into, with the bits behind
    the last value set to zero; so it gives the bytes themselves exactly if they end with the values
    and were filled up with zeros. -/
theorem pack_unpack {width : UInt32} (supported : width.toNat ≤ 8) (bytes : Bytes) (count : UInt64)
    (few : count.toNat ≤ 2 ^ 61 - 1)
    (enough : byteCount (count.toNat * width.toNat) ≤ bytes.length) :
    ∃ vs, unpack bytes count width = .ok vs ∧
      pack vs width = .ok (Bits.clearLast (Bits.missing (count.toNat * width.toNat))
        (bytes.take (byteCount (count.toNat * width.toNat)))) ∧
      (pack vs width = .ok bytes ↔
        bytes.length = byteCount (count.toNat * width.toNat) ∧
          ∀ bit ∈ (Bits.ofBytes bytes).drop (count.toNat * width.toNat), bit = false) := by
  have bound : count.toNat * width.toNat ≤ (2 ^ 61 - 1) * 8 := Nat.mul_le_mul few supported
  have listed : count ≤ maxValues := UInt64.le_iff_toNat_le.2 few
  have inside : count.toNat * width.toNat ≤ 8 * bytes.length :=
    Nat.le_trans (le_eight_mul_byteCount _) (Nat.mul_le_mul_left 8 enough)
  have fits : count.toNat * width.toNat ≤ (Bits.ofBytes bytes).length := by
    rw [Bits.length_ofBytes]
    exact inside
  have narrow : width.toNat ≤ 32 := Nat.le_trans supported (by decide)
  refine ⟨_, unpack_of_enough supported (by omega) listed enough, ?_, ?_⟩
  · rw [pack_of_supported supported, Bits.packed, Bits.ofValues_windows narrow fits,
      Bits.toBytes_pad_take inside]
  · rw [pack_of_supported supported, Bits.packed, Bits.ofValues_windows narrow fits,
      ← Bits.toBytes_pad_take_eq_iff inside]
    exact ⟨Except.ok.inj, congrArg Except.ok⟩

/-- Three values of three bits from two bytes with ones behind them and a byte more: the ones are
    cleared and the byte is gone. From the two bytes with zeros behind them they are packed back. -/
theorem pack_unpack_three_bits :
    (3 : UInt32).toNat ≤ 8 ∧ (3 : UInt64).toNat ≤ 2 ^ 61 - 1 ∧
      byteCount ((3 : UInt64).toNat * (3 : UInt32).toNat) ≤ ([0xAB, 0x80] : Bytes).length ∧
      (∃ vs, unpack [0xAB, 0xFF, 0x11] 3 3 = .ok vs ∧ pack vs 3 = .ok [0xAB, 0x80]) ∧
      (∃ vs, unpack [0xAB, 0x80] 3 3 = .ok vs ∧ pack vs 3 = .ok [0xAB, 0x80]) := by
  have supported : (3 : UInt32).toNat ≤ 8 := by decide
  have few : (3 : UInt64).toNat ≤ 2 ^ 61 - 1 := by decide
  have enough : byteCount ((3 : UInt64).toNat * (3 : UInt32).toNat)
    ≤ ([0xAB, 0x80] : Bytes).length := by decide
  obtain ⟨us, unpacked, packed, -⟩ :=
    pack_unpack supported [0xAB, 0xFF, 0x11] 3 few (Nat.le_succ_of_le enough)
  obtain ⟨vs, unpacked', -, whole⟩ := pack_unpack supported [0xAB, 0x80] 3 few enough
  exact ⟨supported, few, enough, ⟨us, unpacked, packed⟩,
    ⟨vs, unpacked', whole.2 ⟨by decide, by decide⟩⟩⟩

end PackedInts
