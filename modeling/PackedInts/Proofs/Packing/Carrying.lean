import PackedInts.Packer
import PackedInts.Proofs.BitString
import PackedInts.Proofs.Register

/-!
# What a packer carries

Between two operations the register spells the bits of the values that were taken and not sent yet.
From this one invariant every operation is read off as bytes for the sink, whatever the sink does
with them.

* `BitWidth.settled`, `BitWidth.pending` -- the values of the whole groups of a list, and the others;
* `Packer.Carries` -- the packer works at a positive width and its register holds these values, at
  most a group of them;
* `Packer.leadingBytes_eq_take`, `Packer.align_of_within` -- what a flush sends, for any register at
  all, and how far the register is moved up for the last one;
* `Packer.Carries.write_of_room`, `Packer.Carries.write_of_full_ok`,
  `Packer.Carries.write_of_full_error` -- what a write does;
* `Packer.Carries.finish_of_ok`, `Packer.Carries.finish_of_error` -- what a finish does;
* **`Packer.Carries.writeAll_of_ok`** -- a run of writes sends the whole groups and carries the rest;
* `Packer.writeAll_new_of_ok` -- the same from a new packer on.
-/

namespace PackedInts

/-! ## 1. Groups of values -/

namespace BitWidth

/-- A group's bits fit the register. -/
theorem two_pow_group_lt (w : BitWidth) : 2 ^ (8 * w.groupBytes) < 2 ^ 64 :=
  Nat.pow_lt_pow_right (by decide) (Nat.lt_of_le_of_lt w.eight_mul_groupBytes_le (by decide))

/-- The values of the whole groups at the front of a list. -/
def settled (w : BitWidth) (vs : List UInt32) : List UInt32 :=
  vs.take (vs.length / w.groupValues * w.groupValues)

/-- The values behind the last whole group of a list. -/
def pending (w : BitWidth) (vs : List UInt32) : List UInt32 :=
  vs.drop (vs.length / w.groupValues * w.groupValues)

theorem settled_append_pending (w : BitWidth) (vs : List UInt32) :
    w.settled vs ++ w.pending vs = vs :=
  List.take_append_drop _ _

theorem settled_of_lt {w : BitWidth} {vs : List UInt32} (h : vs.length < w.groupValues) :
    w.settled vs = [] := by
  rw [settled, Nat.div_eq_of_lt h, Nat.zero_mul, List.take_zero]

theorem pending_of_lt {w : BitWidth} {vs : List UInt32} (h : vs.length < w.groupValues) :
    w.pending vs = vs := by
  rw [pending, Nat.div_eq_of_lt h, Nat.zero_mul, List.drop_zero]

section Group

variable {w : BitWidth} (positive : 0 < w.bits)

include positive

/-- Whole groups in front come to whole groups. -/
theorem length_groups_append {groups : List UInt32} (whole : w.groupValues ∣ groups.length)
    (vs : List UInt32) : (groups ++ vs).length / w.groupValues * w.groupValues
      = groups.length + vs.length / w.groupValues * w.groupValues := by
  obtain ⟨q, len⟩ := whole
  rw [List.length_append, len, Nat.mul_add_div (w.group_bounds positive).1, Nat.add_mul,
    Nat.mul_comm q]

/-- Whole groups in front are settled first. -/
theorem settled_groups_append {groups : List UInt32} (whole : w.groupValues ∣ groups.length)
    (vs : List UInt32) : w.settled (groups ++ vs) = groups ++ w.settled vs := by
  rw [settled, length_groups_append positive whole, List.take_length_add_append, settled]

theorem pending_groups_append {groups : List UInt32} (whole : w.groupValues ∣ groups.length)
    (vs : List UInt32) : w.pending (groups ++ vs) = w.pending vs := by
  rw [pending, length_groups_append positive whole, List.drop_length_add_append, pending]

theorem length_pending_lt (vs : List UInt32) : (w.pending vs).length < w.groupValues := by
  have lt := Nat.mod_lt vs.length (w.group_bounds positive).1
  have split := Nat.div_add_mod' vs.length w.groupValues
  rw [pending, List.length_drop]
  omega

end Group

theorem length_settled (w : BitWidth) (vs : List UInt32) :
    (w.settled vs).length = vs.length / w.groupValues * w.groupValues := by
  rw [settled, List.length_take, Nat.min_eq_left (Nat.div_mul_le_self _ _)]

theorem groupValues_dvd_settled (w : BitWidth) (vs : List UInt32) :
    w.groupValues ∣ (w.settled vs).length := by
  rw [length_settled]
  exact Nat.dvd_mul_left _ _

/-- The whole groups of a longer list: what was pending goes into the next of them. -/
theorem settled_append {w : BitWidth} (positive : 0 < w.bits) (vs us : List UInt32) :
    w.settled (vs ++ us) = w.settled vs ++ w.settled (w.pending vs ++ us) := by
  rw [← settled_groups_append positive (w.groupValues_dvd_settled vs), ← List.append_assoc,
    w.settled_append_pending]

theorem pending_append {w : BitWidth} (positive : 0 < w.bits) (vs us : List UInt32) :
    w.pending (vs ++ us) = w.pending (w.pending vs ++ us) := by
  rw [← pending_groups_append positive (w.groupValues_dvd_settled vs) (w.pending vs ++ us),
    ← List.append_assoc, w.settled_append_pending]

theorem eight_dvd_settled (w : BitWidth) (vs : List UInt32) :
    8 ∣ (w.settled vs).length * w.bits := by
  rw [length_settled, Nat.mul_assoc, w.values_mul_bits]
  exact Dvd.dvd.mul_left (Nat.dvd_mul_right 8 _) _

theorem eight_dvd_group {w : BitWidth} {group : List UInt32} (full : group.length = w.groupValues) :
    8 ∣ group.length * w.bits := by
  rw [full, w.values_mul_bits]
  exact Nat.dvd_mul_right 8 _

/-- The settled values take the bytes of their groups. -/
theorem length_packed_settled (w : BitWidth) (vs : List UInt32) :
    (Bits.packed w.bits (w.settled vs)).length = vs.length / w.groupValues * w.groupBytes := by
  have bytes := byteCount_groups w (vs.length / w.groupValues) 0
  rw [Nat.add_zero, Nat.zero_mul] at bytes
  rw [Bits.length_packed, w.length_settled]
  exact bytes

/-- The bytes of a longer list: those of the settled values, and behind them those of the values
    that were pending and of the new ones. -/
theorem packed_append (w : BitWidth) (vs us : List UInt32) : Bits.packed w.bits (vs ++ us)
    = Bits.packed w.bits (w.settled vs) ++ Bits.packed w.bits (w.pending vs ++ us) := by
  rw [← Bits.packed_append (w.eight_dvd_settled vs), ← List.append_assoc, w.settled_append_pending]

end BitWidth

/-! ## 2. Runs of bytes that a sink takes -/

/-- A run that is taken whole is taken whole in each of its parts. -/
theorem putAll_append_ok {σ : Type} [Sink σ] {s s' : σ} {xs ys : Bytes}
    (h : putAll s (xs ++ ys) = (.ok (), s')) :
    ∃ t, putAll s xs = (.ok (), t) ∧ putAll t ys = (.ok (), s') := by
  rw [putAll_append] at h
  match hx : putAll s xs with
  | (.ok (), t) =>
    rw [hx] at h
    exact ⟨t, rfl, h⟩
  | (.error fault, t) =>
    rw [hx] at h
    cases h

namespace Packer

/-! ## 3. What a flush sends -/

/-- **A flush sends the low bits of the register**, as many as a group has, and of their bytes the
    leading ones. -/
theorem leadingBytes_eq_take (p : Packer) {n : Nat} (h : n ≤ p.width.groupBytes) :
    p.leadingBytes n
      = (Bits.toBytes (Bits.ofNat (8 * p.width.groupBytes) p.register.toNat)).take n := by
  have small := p.width.eight_mul_groupBytes_le
  have len := Bits.length_ofNat (8 * p.width.groupBytes) p.register.toNat
  rw [leadingBytes, Bits.toBytes_eq_map_window len, ← List.map_take, List.take_range,
    Nat.min_eq_left h]
  refine List.map_congr_left fun i hi => UInt8.toNat_inj.1 ?_
  have hi : i < n := List.mem_range.1 hi
  -- the shift of the `i`th byte is what stands below its window
  have below : 8 * p.width.groupBytes - (8 * i + 8) = 8 * (p.width.groupBytes - 1 - i) := by omega
  have top : 8 * p.width.groupBytes = 8 * (p.width.groupBytes - 1 - i) + (8 + 8 * i) := by omega
  have inside : i < p.width.groupBytes := Nat.lt_of_lt_of_le hi h
  rw [toUInt64_of_toNat_eq (toNat_shiftOfByte inside), UInt64.toNat_toUInt8,
    toNat_shiftRight_amount _ (by omega), UInt8.toNat_ofNat', Bits.window_eq_div_mod (by omega), len, below, Bits.toNat_ofNat, top, Nat.pow_add,
    Nat.mod_mul_right_div_self, Nat.mod_mod, Nat.pow_add, Nat.mod_mul_right_mod]

/-- **The register is moved up by what is missing to a group**, where no more than one is held. -/
theorem align_of_within {p : Packer} (within : p.held.toNat ≤ p.width.groupValues) :
    p.align = { p with register :=
      p.register <<< ((p.width.groupValues - p.held.toNat) * p.width.bits).toUInt64 } := by
  rw [align, toUInt64_of_toNat_eq (toNat_shiftToTop within)]

variable {σ : Type} [Sink σ] {s s' : σ}

theorem flush_of_ok {p : Packer} {n : Nat} (h : putAll s (p.leadingBytes n) = (.ok (), s')) :
    p.flush n s = (.ok (), p.emptied, s') := by
  rw [flush, h]

theorem flush_of_error {p : Packer} {n : Nat} {fault : SinkFault}
    (h : putAll s (p.leadingBytes n) = (.error fault, s')) :
    p.flush n s = (.error (.sink fault), p, s') := by
  rw [flush, h]

@[simp] theorem absorb_width (p : Packer) (v : UInt32) : (p.absorb v).width = p.width := by
  unfold absorb
  split <;> rfl

@[simp] theorem absorb_finished (p : Packer) (v : UInt32) : (p.absorb v).finished = p.finished := by
  unfold absorb
  split <;> rfl

@[simp] theorem absorb_accepted (p : Packer) (v : UInt32) :
    (p.absorb v).accepted = p.accepted + 1 := by
  unfold absorb
  split <;> rfl

/-! ## 4. The invariant -/

/-- **The packer carries these values**: it works at the positive width `w`, is not finished, and
    its register spells the low bits of the values, at most a group of them. -/
structure Carries (p : Packer) (w : BitWidth) (vs : List UInt32) : Prop where
  width : p.width = w
  positive : 0 < w.bits
  active : p.finished = false
  fits : vs.length ≤ w.groupValues
  held : p.held.toNat = vs.length
  register : p.register.toNat = Bits.toNat (Bits.ofValues w.bits vs)

theorem carries_new {w : BitWidth} (positive : 0 < w.bits) : (Packer.new w).Carries w [] where
  width := rfl
  positive := positive
  active := rfl
  fits := Nat.zero_le _
  held := rfl
  register := rfl

namespace Carries

variable {p : Packer} {w : BitWidth} {vs : List UInt32}

/-- No more is held than a group. -/
theorem held_le (h : p.Carries w vs) : p.held.toNat ≤ p.width.groupValues := by
  rw [h.held, h.width]
  exact h.fits

theorem align_eq (h : p.Carries w vs) : p.align = { p with register :=
    p.register <<< ((w.groupValues - vs.length) * w.bits).toUInt64 } := by
  rw [align_of_within h.held_le, h.held, h.width]

theorem toNat_usedBytes (h : p.Carries w vs) :
    p.usedBytes.toNat = byteCount (vs.length * w.bits) := by
  rw [Packer.toNat_usedBytes h.held_le, h.held, h.width]

/-- What is carried and what is missing to a group fill the group's bytes. -/
theorem bits_add_room (h : p.Carries w vs) :
    vs.length * w.bits + (w.groupValues - vs.length) * w.bits = 8 * w.groupBytes := by
  rw [← Nat.add_mul, Nat.add_sub_cancel' h.fits, w.values_mul_bits]

theorem eq_nil_of_held (h : p.Carries w vs) (none : p.held = 0) : vs = [] := by
  rw [← List.length_eq_zero_iff, ← h.held, none]
  rfl

theorem register_lt (h : p.Carries w vs) : p.register.toNat < 2 ^ (vs.length * w.bits) := by
  rw [h.register, ← Bits.length_ofValues]
  exact Bits.toNat_lt _

/-- **What is carried may be moved up within the group**, and no bit is lost. -/
theorem register_mul_lt (h : p.Carries w vs) {k : Nat}
    (within : vs.length * w.bits + k ≤ 8 * w.groupBytes) :
    p.register.toNat * 2 ^ k < 2 ^ (8 * w.groupBytes) := by
  have below := Nat.mul_lt_mul_of_pos_right h.register_lt (Nat.two_pow_pos k)
  rw [← Nat.pow_add] at below
  exact Nat.lt_of_lt_of_le below (Nat.pow_le_pow_right (by decide) within)

/-- No bit is lost where the register makes room for one more value. -/
theorem register_fits_shift (h : p.Carries w vs) (room : vs.length < w.groupValues) :
    p.register.toNat * 2 ^ w.bits < 2 ^ 64 :=
  (h.register_mul_lt (w.bits_le_of_lt room)).trans w.two_pow_group_lt

/-- No bit is lost where the register is moved up to the top of the group. -/
theorem register_fits_align (h : p.Carries w vs) :
    p.register.toNat * 2 ^ ((w.groupValues - vs.length) * w.bits) < 2 ^ 64 :=
  (h.register_mul_lt h.bits_add_room.le).trans w.two_pow_group_lt

theorem emptied (h : p.Carries w vs) : p.emptied.Carries w [] :=
  ⟨h.width, h.positive, h.active, Nat.zero_le _, rfl, rfl⟩

/-- **A value that still fits the group is carried behind the others.** -/
theorem absorb (h : p.Carries w vs) (room : vs.length < w.groupValues) (v : UInt32) :
    (p.absorb v).Carries w (vs ++ [v]) := by
  obtain ⟨rfl, positive, active, -, held, register⟩ := id h
  have narrow := p.width.bits_le
  have shifted := h.register_fits_shift room
  have low := toNat_maskedValue v (Nat.lt_of_le_of_lt narrow (by decide))
  have opened : p.absorb v =
      { p with
        accepted := p.accepted + 1
        register := (p.register <<< p.width.bits.toUInt64)
          ||| (v.toUInt64 &&& lowMask p.width.bits)
        held := p.held + 1 } := if_neg (Nat.pos_iff_ne_zero.1 positive)
  refine ⟨absorb_width p v, positive, (absorb_finished p v).trans active, ?_, ?_, ?_⟩
  · rw [List.length_append, List.length_singleton]
    exact room
  · have few := (p.width.group_bounds positive).2.1
    rw [opened, UInt32.toNat_add, held, List.length_append, List.length_singleton]
    exact Nat.mod_eq_of_lt (by simp; omega)
  · rw [opened, Bits.ofValues_append, Bits.toNat_append, Bits.ofValues_cons, Bits.ofValues_nil,
      List.append_nil, Bits.length_ofNat, Bits.toNat_ofNat, ← register, ← low]
    refine toNat_or_of_aligned (toNat_shiftLeft_of_fits (by omega) shifted) ?_
    rw [low]
    exact Nat.mod_lt _ (Nat.two_pow_pos _)

theorem holdsGroup_iff (h : p.Carries w vs) :
    p.holdsGroup = true ↔ vs.length = w.groupValues := by
  have positive := h.positive
  rw [holdsGroup, decide_eq_true_iff, h.width, h.held]
  exact ⟨And.right, fun full => ⟨by omega, full⟩⟩

/-! ## 5. Sending what is carried -/

/-- The bits of what is carried, filled with zero bits up to a group. -/
theorem length_filled (h : p.Carries w vs) : (Bits.ofValues w.bits vs
    ++ List.replicate ((w.groupValues - vs.length) * w.bits) false).length = 8 * w.groupBytes := by
  rw [List.length_append, Bits.length_ofValues, List.length_replicate, h.bits_add_room]

theorem register_align (h : p.Carries w vs) : p.align.register.toNat
    = Bits.toNat (Bits.ofValues w.bits vs
        ++ List.replicate ((w.groupValues - vs.length) * w.bits) false) := by
  have fill := h.bits_add_room
  have small := w.eight_mul_groupBytes_le
  rw [h.align_eq, toNat_shiftLeft_of_fits (by omega) h.register_fits_align, h.register,
    Bits.toNat_append_zeros]

/-- **Aligned, the register holds the packed bytes of its values** in its leading bytes. -/
theorem leadingBytes_align (h : p.Carries w vs) :
    p.align.leadingBytes (byteCount (vs.length * w.bits)) = Bits.packed w.bits vs := by
  have fill := h.bits_add_room
  have enough := w.byteCount_le_of_le h.fits
  have whole : Bits.ofNat (8 * w.groupBytes) p.align.register.toNat = Bits.ofValues w.bits vs
      ++ List.replicate ((w.groupValues - vs.length) * w.bits) false := by
    rw [h.register_align, ← h.length_filled, Bits.ofNat_toNat]
  -- of the zero bits, the first ones fill the last byte and the others are bytes of their own
  have split : Bits.ofValues w.bits vs
      ++ List.replicate ((w.groupValues - vs.length) * w.bits) false
        = Bits.pad (Bits.ofValues w.bits vs)
          ++ List.replicate (8 * (w.groupBytes - byteCount (vs.length * w.bits))) false := by
    rw [Bits.pad, List.append_assoc, List.replicate_append_replicate, Bits.length_ofValues,
      Bits.missing]
    congr 2
    simp only [byteCount]
    omega
  have padded := Bits.length_pad (Bits.ofValues w.bits vs)
  have front : (Bits.packed w.bits vs).length = byteCount (vs.length * w.bits) :=
    Bits.length_packed _ _
  have atWidth : p.align.width = w := h.width
  rw [leadingBytes_eq_take _ (by rw [atWidth]; exact enough), atWidth, whole, split,
    Bits.toBytes_append ⟨_, padded⟩, ← Bits.packed, ← front, List.take_left]

/-- A register that holds a whole group is aligned as it is. -/
theorem align_of_full (h : p.Carries w vs) (full : vs.length = w.groupValues) : p.align = p := by
  have still : p.register <<< ((w.groupValues - vs.length) * w.bits).toUInt64 = p.register := by
    apply UInt64.toNat_inj.1
    rw [full, Nat.sub_self, Nat.zero_mul, toNat_shiftLeft_amount _ (by decide), Nat.pow_zero,
      Nat.mul_one, Nat.mod_eq_of_lt p.register.toNat_lt]
  rw [h.align_eq, still]

theorem leadingBytes_of_full (h : p.Carries w vs) (full : vs.length = w.groupValues) :
    p.leadingBytes w.groupBytes = Bits.packed w.bits vs := by
  have count : byteCount (vs.length * w.bits) = w.groupBytes := by
    rw [full, w.values_mul_bits]
    exact byteCount_eight_mul _
  rw [← h.leadingBytes_align, h.align_of_full full, count]

/-! ## 6. The operations -/

/-- **A value that does not complete the group is only carried.** -/
theorem write_of_room (h : p.Carries w vs) (room : vs.length + 1 < w.groupValues) (v : UInt32)
    (s : σ) : p.write v s = (.ok (), p.absorb v, s) := by
  have carried := h.absorb (Nat.lt_of_succ_lt room) v
  have open' : ¬ (p.absorb v).holdsGroup = true := by
    rw [carried.holdsGroup_iff, List.length_append, List.length_singleton]
    omega
  rw [write, if_neg (by simp [h.active]), if_neg open']

/-- With a value that completes it, the group is in the register. -/
theorem absorb_full (h : p.Carries w vs) (full : vs.length + 1 = w.groupValues) (v : UInt32) :
    (p.absorb v).Carries w (vs ++ [v]) ∧ (vs ++ [v]).length = w.groupValues := by
  refine ⟨h.absorb (by omega) v, ?_⟩
  rw [List.length_append, List.length_singleton, full]

theorem write_of_full (h : p.Carries w vs) (full : vs.length + 1 = w.groupValues) (v : UInt32)
    (s : σ) : p.write v s = (p.absorb v).flush w.groupBytes s := by
  obtain ⟨carried, group⟩ := h.absorb_full full v
  rw [write, if_neg (by simp [h.active]), if_pos (carried.holdsGroup_iff.2 group), h.width]

/-- **A value that completes the group sends it.** -/
theorem write_of_full_ok (h : p.Carries w vs) (full : vs.length + 1 = w.groupValues) {v : UInt32}
    (hs : putAll s (Bits.packed w.bits (vs ++ [v])) = (.ok (), s')) :
    p.write v s = (.ok (), (p.absorb v).emptied, s') := by
  obtain ⟨carried, group⟩ := h.absorb_full full v
  rw [← carried.leadingBytes_of_full group] at hs
  rw [h.write_of_full full, flush_of_ok hs]

/-- A group that is not taken whole stays in the register. -/
theorem write_of_full_error (h : p.Carries w vs) (full : vs.length + 1 = w.groupValues)
    {v : UInt32} {fault : SinkFault}
    (hs : putAll s (Bits.packed w.bits (vs ++ [v])) = (.error fault, s')) :
    p.write v s = (.error (.sink fault), p.absorb v, s') := by
  obtain ⟨carried, group⟩ := h.absorb_full full v
  rw [← carried.leadingBytes_of_full group] at hs
  rw [h.write_of_full full, flush_of_error hs]

/-- **A finish sends what is carried**, filled up to a whole byte. -/
theorem finish_of_ok (h : p.Carries w vs)
    (hs : putAll s (Bits.packed w.bits vs) = (.ok (), s')) :
    p.finish s = (.ok (), { p.emptied with finished := true }, s') := by
  rw [finish, if_neg (by simp [h.active])]
  by_cases none : p.held = 0
  · obtain rfl := h.eq_nil_of_held none
    have zero : p.register = 0 := UInt64.toNat_inj.1 h.register
    have same : p.emptied = p := by
      rw [Packer.emptied, ← none, ← zero]
    rw [if_pos none, same]
    rw [Bits.packed_nil, putAll_nil] at hs
    cases hs
    rfl
  · rw [← h.leadingBytes_align] at hs
    rw [if_neg none, h.toNat_usedBytes, flush_of_ok hs]
    rfl

/-- A finish that fails leaves the register aligned. -/
theorem finish_of_error (h : p.Carries w vs) {fault : SinkFault}
    (hs : putAll s (Bits.packed w.bits vs) = (.error fault, s')) :
    p.finish s = (.error (.sink fault), p.align, s') := by
  have some : ¬ p.held = 0 := by
    intro none
    obtain rfl := h.eq_nil_of_held none
    rw [Bits.packed_nil, putAll_nil] at hs
    cases hs
  rw [← h.leadingBytes_align] at hs
  rw [finish, if_neg (by simp [h.active]), if_neg some, h.toNat_usedBytes, flush_of_error hs]

/-! ## 7. Runs of writes -/

/-- **A run of writes sends the whole groups and carries the rest**: if the sink takes the bytes of
    the values that are settled, then every value is taken, and those pending are carried. -/
theorem writeAll_of_ok {us : List UInt32} (h : p.Carries w us) (room : us.length < w.groupValues)
    (hs : putAll s (Bits.packed w.bits (w.settled (us ++ vs))) = (.ok (), s')) :
    ∃ p', p.writeAll s vs = (.ok (), p', s') ∧ p'.Carries w (w.pending (us ++ vs)) ∧
      p'.accepted = p.accepted + vs.length.toUInt64 := by
  induction vs generalizing p us s with
  | nil =>
    rw [List.append_nil, BitWidth.settled_of_lt room, Bits.packed_nil, putAll_nil] at hs
    cases hs
    rw [List.append_nil, BitWidth.pending_of_lt room]
    exact ⟨p, rfl, h, (UInt64.add_zero _).symm⟩
  | cons v vs ih =>
    have count := add_one_add_toUInt64 p.accepted vs.length
    rw [List.append_cons] at hs ⊢
    rw [List.length_cons, ← count]
    -- a value that completes the group starts the carried list anew, any other one makes it longer
    by_cases full : us.length + 1 = w.groupValues
    · obtain ⟨carried, group⟩ := h.absorb_full full v
      rw [BitWidth.settled_groups_append h.positive ⟨1, by rw [group, Nat.mul_one]⟩,
        Bits.packed_append (BitWidth.eight_dvd_group group)] at hs
      obtain ⟨t, first, others⟩ := putAll_append_ok hs
      obtain ⟨p', run, rest, accepted⟩ :=
        ih carried.emptied (w.group_bounds h.positive).1 (by rwa [List.nil_append])
      refine ⟨p', ?_, ?_, ?_⟩
      · rw [writeAll_cons_of_ok (h.write_of_full_ok full first), run]
      · rwa [BitWidth.pending_groups_append h.positive ⟨1, by rw [group, Nat.mul_one]⟩]
      · rw [accepted, Packer.emptied, absorb_accepted]
    · have more : us.length + 1 < w.groupValues := by omega
      obtain ⟨p', run, carried, accepted⟩ :=
        ih (h.absorb room v) (by rwa [List.length_append, List.length_singleton]) hs
      refine ⟨p', ?_, carried, ?_⟩
      · rw [writeAll_cons_of_ok (h.write_of_room more v s), run]
      · rw [accepted, absorb_accepted]

end Carries

/-- A new packer takes every value if the sink takes the bytes of the settled ones. -/
theorem writeAll_new_of_ok {w : BitWidth} (positive : 0 < w.bits) {vs : List UInt32}
    (hs : putAll s (Bits.packed w.bits (w.settled vs)) = (.ok (), s')) :
    ∃ p, (Packer.new w).writeAll s vs = (.ok (), p, s') ∧ p.Carries w (w.pending vs) ∧
      p.accepted = vs.length.toUInt64 := by
  obtain ⟨p, run, carried, accepted⟩ := (carries_new positive).writeAll_of_ok
    (w.group_bounds positive).1 (by rwa [List.nil_append])
  exact ⟨p, run, carried, accepted.trans (UInt64.zero_add _)⟩

end Packer

end PackedInts
