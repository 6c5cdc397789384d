import PackedInts.Proofs.Packing.Layout
import PackedInts.Proofs.Sizes
import PackedInts.Proofs.Unpacking.Reading

/-!
# Packing and unpacking are inverse

What was packed is read back value by value, each without its bits above the width, from any point
at which fewer values are asked for and whatever bytes follow.

* `Bits.low` -- a value without its bits above the width;
* `unpack_of_enough` -- unpacking gives the windows of the bytes, if there are enough of them;
* **`unpack_pack_append`** -- unpacking the packed bytes, with bytes behind them, gives the values.
-/

namespace PackedInts

/-! ## 1. Values within a width -/

/-- The value without its bits above the width. -/
def Bits.low (w : Nat) (v : UInt32) : UInt32 :=
  (v.toNat % 2 ^ w).toUInt32

theorem Bits.low_of_lt {w : Nat} {v : UInt32} (h : v.toNat < 2 ^ w) : low w v = v := by
  rw [low, Nat.mod_eq_of_lt h]
  exact UInt32.ofNat_toNat

/-- **The windows of the packed values are their low bits**, as many as are asked for. -/
theorem Bits.windows_ofValues {w n : Nat} {vs : List UInt32} (h : n ≤ vs.length)
    (rest : List Bool) :
    (List.range n).map (fun k => (window (ofValues w vs ++ rest) (k * w) w).toUInt32)
      = (vs.take n).map (low w) := by
  refine List.ext_getElem ?_ fun k hk _ => ?_
  · rw [List.length_map, List.length_range, List.length_map, List.length_take, Nat.min_eq_left h]
  · have hk : k < n := by simpa using hk
    rw [List.getElem_map, List.getElem_range, List.getElem_map, List.getElem_take,
      window_ofValues (Nat.lt_of_lt_of_le hk h), low]

/-! ## 2. Unpacking -/

theorem MemorySource.delivers_take (bytes : Bytes) (n : Nat) :
    Delivers (MemorySource.mk bytes) (bytes.take n) (MemorySource.mk (bytes.drop n)) := by
  have := MemorySource.delivers (bytes.take n) (bytes.drop n)
  rwa [List.take_append_drop] at this

/-- **Unpacking gives the windows of the bytes**, if there are enough of them and the values fit a
    list. -/
theorem unpack_of_enough {bytes : Bytes} {count : UInt64} {width : UInt32}
    (supported : width.toNat ≤ 8) (fits : count.toNat * width.toNat + 7 < 2 ^ 64)
    (few : count ≤ maxValues) (enough : byteCount (count.toNat * width.toNat) ≤ bytes.length) :
    unpack bytes count width = .ok ((List.range count.toNat).map fun k =>
      (Bits.window (Bits.ofBytes bytes) (k * width.toNat) width.toNat).toUInt32) := by
  obtain ⟨size, sized, toNat_size⟩ := packedSize_of_fits supported fits
  have ofWidth : BitWidth.ofUInt32 width = .ok ⟨width.toNat, supported⟩ := dif_pos supported
  have taken : (bytes.take (byteCount (count.toNat * width.toNat))).length
      = byteCount (count.toNat * width.toNat) := by
    rw [List.length_take, Nat.min_eq_left enough]
  obtain ⟨u, run⟩ := Unpacker.readMany_new (w := ⟨width.toNat, supported⟩)
    (MemorySource.delivers_take bytes _) taken
  have windows : ∀ k ∈ List.range count.toNat,
      (Bits.window (Bits.ofBytes (bytes.take (byteCount (count.toNat * width.toNat))))
        (k * width.toNat) width.toNat).toUInt32
      = (Bits.window (Bits.ofBytes bytes) (k * width.toNat) width.toNat).toUInt32 := by
    intro k hk
    have inside : k * width.toNat + width.toNat ≤ count.toNat * width.toNat := by
      rw [← Nat.succ_mul]
      exact Nat.mul_le_mul_right _ (List.mem_range.1 hk)
    rw [Bits.window_take enough (Nat.le_trans inside (le_eight_mul_byteCount _))]
  have long : ¬ bytes.length < size.toNat := by
    rw [toNat_size]
    exact Nat.not_lt.2 enough
  have listed : ¬ maxValues < count := UInt64.not_lt.2 few
  rw [unpack, sized, ofWidth]
  show (if bytes.length < size.toNat then _ else _) = _
  rw [if_neg long, if_neg listed, run, List.map_congr_left windows]

/-- **What was packed is unpacked**: of the values of a list, packed at a supported width and with
    any bytes behind them, as many come back as are asked for, each without its bits above the
    width; a list whose values all fit the width comes back as it was. -/
theorem unpack_pack_append {width : UInt32} (supported : width.toNat ≤ 8) (vs : List UInt32)
    (small : vs.length ≤ 2 ^ 61 - 1) (behind : Bytes) (count : UInt64)
    (within : count.toNat ≤ vs.length) :
    ∃ bytes, pack vs width = .ok bytes ∧
      unpack (bytes ++ behind) count width
        = .ok ((vs.take count.toNat).map (Bits.low width.toNat)) ∧
      (count.toNat = vs.length → (∀ v ∈ vs, v.toNat < 2 ^ width.toNat) →
        unpack (bytes ++ behind) count width = .ok vs) := by
  have bound : count.toNat * width.toNat ≤ (2 ^ 61 - 1) * 8 :=
    Nat.mul_le_mul (Nat.le_trans within small) supported
  have few : count ≤ maxValues := by
    rw [UInt64.le_iff_toNat_le]
    exact Nat.le_trans within small
  have enough : byteCount (count.toNat * width.toNat)
      ≤ (Bits.packed width.toNat vs ++ behind).length := by
    rw [List.length_append, Bits.length_packed]
    exact Nat.le_trans (byteCount_mono (Nat.mul_le_mul_right _ within)) (Nat.le_add_right _ _)
  have read : unpack (Bits.packed width.toNat vs ++ behind) count width
      = .ok ((vs.take count.toNat).map (Bits.low width.toNat)) := by
    rw [unpack_of_enough supported (by omega) few enough, Bits.ofBytes_append, Bits.ofBytes_packed,
      Bits.pad, List.append_assoc, Bits.windows_ofValues within]
  refine ⟨_, pack_of_supported supported vs, read, fun all fit => ?_⟩
  have same : ∀ v ∈ vs, Bits.low width.toNat v = v := fun v hv => Bits.low_of_lt (fit v hv)
  rw [read, all, List.take_length, List.map_congr_left same, List.map_id']

/-- Two of three values of five bits, one of them with higher bits, and all three where they fit,
    with two bytes behind. -/
theorem unpack_pack_append_five_bits :
    (5 : UInt32).toNat ≤ 8 ∧ (2 : UInt64).toNat ≤ 3 ∧
      (∃ bytes, pack [33, 7, 31] 5 = .ok bytes ∧
        unpack (bytes ++ [0xFF, 0x0F]) 2 5 = .ok [1, 7]) ∧
      (∃ bytes, pack [30, 7, 31] 5 = .ok bytes ∧
        unpack (bytes ++ [0xFF, 0x0F]) 3 5 = .ok [30, 7, 31]) := by
  have supported : (5 : UInt32).toNat ≤ 8 := by decide
  obtain ⟨first, packed, some, -⟩ :=
    unpack_pack_append supported [33, 7, 31] (by simp) [0xFF, 0x0F] 2 (by decide)
  obtain ⟨second, packed', -, all⟩ :=
    unpack_pack_append supported [30, 7, 31] (by simp) [0xFF, 0x0F] 3 (by decide)
  exact ⟨supported, by decide, ⟨first, packed, some⟩, ⟨second, packed', all (by decide) (by simp)⟩⟩

end PackedInts
