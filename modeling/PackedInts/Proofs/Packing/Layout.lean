import PackedInts.Packing
import PackedInts.Proofs.Packing.Carrying

/-!
# The bytes of a packed list

However a sink is filled, what a packer sends in all is one flat bit string: the low bits of the
values, one value after the other, and zero bits up to the next byte.

* `packInto_of_ok` -- on any sink that takes them, a list of values becomes its packed bytes;
* `pack_of_supported` -- in memory, packing gives these bytes for every supported width;
* **`pack_layout`** -- the bytes of a packed list as bits, their number, their padding, and what does
  not influence them.
-/

namespace PackedInts

/-! ## 1. Any sink -/

section Sink

variable {σ : Type} [Sink σ] {s s' : σ}

/-- At width zero values are only counted. -/
theorem Packer.writeAll_of_bits_eq_zero {p : Packer} (zero : p.width.bits = 0)
    (active : p.finished = false) (vs : List UInt32) (s : σ) :
    p.writeAll s vs = (.ok (), { p with accepted := p.accepted + vs.length.toUInt64 }, s) := by
  induction vs generalizing p with
  | nil => simp [Nat.toUInt64]
  | cons v vs ih =>
    have counted : p.absorb v = { p with accepted := p.accepted + 1 } := if_pos zero
    have first : p.write v s = (.ok (), { p with accepted := p.accepted + 1 }, s) := by
      simp [write, active, holdsGroup, zero, counted]
    rw [writeAll_cons_of_ok first, ih (by exact zero) (by exact active), List.length_cons,
      ← add_one_add_toUInt64]

/-- **A list of values becomes its packed bytes**, on every sink that takes them. -/
theorem packInto_of_ok {w : BitWidth} {vs : List UInt32}
    (hs : putAll s (Bits.packed w.bits vs) = (.ok (), s')) :
    ∃ p, packInto w vs s = (.ok (), p, s') ∧ p.finished = true ∧
      p.accepted = vs.length.toUInt64 := by
  rcases Nat.eq_zero_or_pos w.bits with zero | positive
  · have run := (Packer.new w).writeAll_of_bits_eq_zero zero rfl vs s
    rw [zero, Bits.packed_zero_width, putAll_nil] at hs
    cases hs
    refine ⟨{ Packer.new w with accepted := 0 + vs.length.toUInt64, finished := true }, ?_, rfl, ?_⟩
    · rw [packInto, run]
      rfl
    · exact UInt64.zero_add _
  · -- the run of writes sends what is settled, the finish what is pending
    rw [← w.settled_append_pending vs, Bits.packed_append (w.eight_dvd_settled vs)] at hs
    obtain ⟨t, groups, rest⟩ := putAll_append_ok hs
    obtain ⟨p, run, carried, accepted⟩ := Packer.writeAll_new_of_ok positive groups
    refine ⟨{ p.emptied with finished := true }, ?_, rfl, accepted⟩
    rw [packInto, run]
    exact carried.finish_of_ok rest

end Sink

/-! ## 2. In memory -/

theorem pack_of_supported {width : UInt32} (h : width.toNat ≤ 8) (vs : List UInt32) :
    pack vs width = .ok (Bits.packed width.toNat vs) := by
  have supported : BitWidth.ofUInt32 width = .ok ⟨width.toNat, h⟩ := dif_pos h
  have taken := MemorySink.putAll_eq MemorySink.empty (Bits.packed width.toNat vs)
  obtain ⟨p, run, -, -⟩ := packInto_of_ok (w := ⟨width.toNat, h⟩) taken
  rw [pack, supported]
  simp only [run, MemorySink.content_eq]
  simp [MemorySink.empty]

theorem Bits.ofValues_eq_of_low {w : Nat} {us vs : List UInt32}
    (same : us.map (fun v => v.toNat % 2 ^ w) = vs.map fun v => v.toNat % 2 ^ w) :
    Bits.ofValues w us = Bits.ofValues w vs := by
  have low : ∀ vs : List UInt32, Bits.ofValues w vs
      = (vs.map fun v => v.toNat % 2 ^ w).flatMap (Bits.ofNat w) := by
    intro vs
    rw [Bits.ofValues, List.flatMap_map]
    exact congrArg (vs.flatMap ·) (funext fun v => (Bits.ofNat_mod w v.toNat).symm)
  rw [low us, low vs, same]

/-- **The layout of a packed list.** At a width of at most eight bits the result is the bits of the
    values, the most significant first, filled with fewer than eight zero bits and cut into bytes;
    the higher bits of a value have no part in it. Any other width is refused by its number. -/
theorem pack_layout (vs : List UInt32) (width : UInt32) :
    (width.toNat ≤ 8 → ∃ bytes,
      pack vs width = .ok bytes ∧
      bytes = Bits.toBytes (Bits.pad (Bits.ofValues width.toNat vs)) ∧
      bytes.length = byteCount (vs.length * width.toNat) ∧
      (∃ zeros < 8, Bits.ofBytes bytes
        = Bits.ofValues width.toNat vs ++ List.replicate zeros false) ∧
      ∀ us : List UInt32, us.map (fun v => v.toNat % 2 ^ width.toNat)
          = vs.map (fun v => v.toNat % 2 ^ width.toNat) → pack us width = .ok bytes) ∧
    (8 < width.toNat → pack vs width = .error (.unsupportedWidth width)) := by
  refine ⟨fun h => ?_, fun h => pack_of_unsupported h vs⟩
  refine ⟨Bits.packed width.toNat vs, pack_of_supported h vs, rfl, Bits.length_packed _ _, ?_, ?_⟩
  · refine ⟨Bits.missing (Bits.ofValues width.toNat vs).length, ?_, Bits.ofBytes_packed _ _⟩
    simp only [Bits.missing, byteCount]
    omega
  · intro us same
    rw [pack_of_supported h, Bits.packed, Bits.ofValues_eq_of_low same, Bits.packed]

/-- Three values of three bits, one of them with higher bits, fill two bytes up to seven bits. -/
theorem pack_layout_three_bits :
    (3 : UInt32).toNat ≤ 8 ∧ 8 < (9 : UInt32).toNat ∧
      pack [5, 0xFFFFFFFA, 7] 3 = .ok [0xAB, 0x80] ∧
      pack [5, 2, 7] 3 = .ok [0xAB, 0x80] ∧
      pack [5] 9 = .error (.unsupportedWidth 9) := by
  obtain ⟨bytes, result, rfl, -, -, low⟩ :=
    (pack_layout [5, 0xFFFFFFFA, 7] 3).1 (by decide)
  exact ⟨by decide, by decide, result, low [5, 2, 7] (by decide), (pack_layout [5] 9).2 (by decide)⟩

end PackedInts
