import PackedInts.Sink.Scripted
import PackedInts.Proofs.Packing.Layout

/-!
# Packing into a sink that closes

A sink may take some bytes and refuse the next one, in the middle of a group or of the bytes that a
finish sends. Up to that attempt it has got the first bytes of the packed list and nothing else, and
the number of bytes that it takes says which operation meets the refusal.

* `ClosesAfter` -- a sink that takes a number of bytes and refuses the one behind them;
* `ClosesAfter.putAll_ok`, `ClosesAfter.putAll_error` -- runs of bytes on such a sink;
* `ScriptedSink.closesAfter` -- a scripted sink is one, by the first attempt that its script fails;
* `ClosesAfter.writeAll_ok` -- writes are taken as long as their whole groups are;
* `BitWidth.one_short_of_group` -- lists whose next value completes a group;
* `ClosesAfter.write_error`, `ClosesAfter.finish_error` -- the write and the finish that are refused;
* **`packInto_closing`** -- what a list of values comes to on a sink that closes.
-/

namespace PackedInts

section Sink

variable {σ : Type} [Sink σ] {fault : SinkFault} {n : Nat} {s : σ}

/-! ## 1. Sinks that close -/

/-- **The sink takes a byte at each of the next `n` attempts and refuses the one behind them.** A byte
    that is taken is appended, and one that is refused is not stored. Of later attempts nothing is
    said. -/
def ClosesAfter (fault : SinkFault) : Nat → σ → Prop
  | 0, s => ∀ b, ∃ s', put s b = (.error fault, s') ∧ content s' = content s
  | n + 1, s => ∀ b, ∃ s', put s b = (.ok (), s') ∧ content s' = content s ++ [b] ∧
      ClosesAfter fault n s'

/-- **As many bytes as the sink takes are taken whole.** -/
theorem ClosesAfter.putAll_ok (h : ClosesAfter fault n s) {bs : Bytes} (few : bs.length ≤ n) :
    ∃ s', putAll s bs = (.ok (), s') ∧ content s' = content s ++ bs ∧
      ClosesAfter fault (n - bs.length) s' := by
  induction bs generalizing n s with
  | nil => exact ⟨s, rfl, (List.append_nil _).symm, h⟩
  | cons b bs ih =>
    cases n with
    | zero => cases few
    | succ n =>
      obtain ⟨t, first, held, rest⟩ := h b
      obtain ⟨s', others, all, left⟩ := ih rest (Nat.le_of_succ_le_succ few)
      refine ⟨s', ?_, ?_, ?_⟩
      · rw [putAll_cons_of_ok first, others]
      · rw [all, held, List.append_assoc]
        rfl
      · rw [List.length_cons, Nat.add_sub_add_right]
        exact left

/-- **Of more bytes the first ones are stored**, and the fault is the sink's own. -/
theorem ClosesAfter.putAll_error (h : ClosesAfter fault n s) {bs : Bytes} (many : n < bs.length) :
    ∃ s', putAll s bs = (.error fault, s') ∧ content s' = content s ++ bs.take n := by
  have front : (bs.take n).length = n := List.length_take_of_le (Nat.le_of_lt many)
  obtain ⟨t, taken, held, closed⟩ := h.putAll_ok (Nat.le_of_eq front)
  rw [front, Nat.sub_self] at closed
  obtain ⟨s', refused, same⟩ := closed bs[n]
  refine ⟨s', ?_, same.trans held⟩
  have split : bs = bs.take n ++ bs[n] :: bs.drop (n + 1) := by
    rw [← List.drop_eq_getElem_cons many, List.take_append_drop]
  rw [split, putAll_append, taken]
  exact putAll_cons_of_error refused _

end Sink

/-- A scripted sink closes at the first attempt that its script fails. -/
theorem ScriptedSink.closesAfter {s : ScriptedSink} {n : Nat}
    (opens : ∀ i < n, s.fails (s.attempts + i) = false)
    (closes : s.fails (s.attempts + n) = true) : ClosesAfter .closed n s := by
  induction n generalizing s with
  | zero =>
    intro b
    exact ⟨_, put_of_fails closes b, rfl⟩
  | succ n ih =>
    intro b
    refine ⟨_, put_of_not_fails (opens 0 (Nat.succ_pos n)) b, ?_, ih ?_ ?_⟩
    · exact Array.toList_push
    · intro i hi
      show s.fails (s.attempts + 1 + i) = false
      rw [Nat.add_assoc, Nat.add_comm 1]
      exact opens (i + 1) (Nat.succ_lt_succ hi)
    · show s.fails (s.attempts + 1 + n) = true
      rw [Nat.add_assoc, Nat.add_comm 1]
      exact closes

/-! ## 2. The operation that is refused -/

section Packing

variable {σ : Type} [Sink σ] {fault : SinkFault} {n : Nat} {s : σ} {w : BitWidth}
  {vs : List UInt32}

/-- **Writes are taken as long as their whole groups are.** -/
theorem ClosesAfter.writeAll_ok (h : ClosesAfter fault n s) (positive : 0 < w.bits)
    (few : vs.length / w.groupValues * w.groupBytes ≤ n) :
    ∃ p t, (Packer.new w).writeAll s vs = (.ok (), p, t) ∧ p.Carries w (w.pending vs) ∧
      p.accepted = vs.length.toUInt64 ∧
      content t = content s ++ Bits.packed w.bits (w.settled vs) ∧
      ClosesAfter fault (n - vs.length / w.groupValues * w.groupBytes) t := by
  have groups := w.length_packed_settled vs
  obtain ⟨t, taken, held, rest⟩ := h.putAll_ok (groups.trans_le few)
  rw [groups] at rest
  obtain ⟨p, run, carried, accepted⟩ := Packer.writeAll_new_of_ok positive taken
  exact ⟨p, t, run, carried, accepted, held, rest⟩

/-- The bytes that are stored by then: those of the whole groups, and the first ones of the rest. -/
theorem take_packed_append (w : BitWidth) (vs us : List UInt32)
    (few : vs.length / w.groupValues * w.groupBytes ≤ n) :
    Bits.packed w.bits (w.settled vs)
        ++ (Bits.packed w.bits (w.pending vs ++ us)).take
          (n - vs.length / w.groupValues * w.groupBytes)
      = (Bits.packed w.bits (vs ++ us)).take n := by
  have groups := w.length_packed_settled vs
  rw [w.packed_append vs us, List.take_append, groups,
    List.take_of_length_le (groups.trans_le few)]

/-- One value short of some groups: all but one of them are settled, and of the last one only its last
    value is missing. -/
theorem BitWidth.one_short_of_group (w : BitWidth) (positive : 0 < w.bits) {q : Nat}
    (count : vs.length + 1 = (q + 1) * w.groupValues) :
    vs.length / w.groupValues = q ∧ (w.pending vs).length + 1 = w.groupValues := by
  have some := (w.group_bounds positive).1
  rw [Nat.add_mul, Nat.one_mul] at count
  have len : vs.length = q * w.groupValues + (w.groupValues - 1) := by omega
  have whole : vs.length / w.groupValues = q := by
    rw [len, Nat.mul_comm, Nat.mul_add_div some, Nat.div_eq_of_lt (Nat.sub_one_lt_of_lt some),
      Nat.add_zero]
  refine ⟨whole, ?_⟩
  rw [BitWidth.pending, List.length_drop, whole, len, Nat.add_sub_cancel_left]
  omega

/-- **The write that completes a group which is not taken whole fails** with the sink's own fault. The
    value counts as taken, the packer is not finished, and the sink holds the first `n` bytes. -/
theorem ClosesAfter.write_error (h : ClosesAfter fault n s) (positive : 0 < w.bits)
    (count : vs.length + 1 = (n / w.groupBytes + 1) * w.groupValues) (v : UInt32) :
    ∃ p t p' s', (Packer.new w).writeAll s vs = (.ok (), p, t) ∧
      p.write v t = (.error (.sink fault), p', s') ∧
      content s' = content s ++ (Bits.packed w.bits (vs ++ [v])).take n ∧
      p'.accepted = (vs.length + 1).toUInt64 ∧ p'.finished = false := by
  obtain ⟨whole, full⟩ := w.one_short_of_group positive count
  have few : vs.length / w.groupValues * w.groupBytes ≤ n := by
    rw [whole]
    exact Nat.div_mul_le_self _ _
  obtain ⟨p, t, run, carried, accepted, held, rest⟩ := h.writeAll_ok positive few
  have many : n - vs.length / w.groupValues * w.groupBytes
      < (Bits.packed w.bits (w.pending vs ++ [v])).length := by
    have group : byteCount ((w.pending vs ++ [v]).length * w.bits) = w.groupBytes := by
      rw [List.length_append, List.length_singleton, full, w.values_mul_bits]
      exact byteCount_eight_mul _
    rw [Bits.length_packed, group, whole, ← Nat.mod_eq_sub_div_mul]
    exact Nat.mod_lt _ (w.group_bounds positive).2.2.1
  obtain ⟨s', refused, stored⟩ := rest.putAll_error many
  refine ⟨p, t, p.absorb v, s', run, carried.write_of_full_error full refused, ?_, ?_, ?_⟩
  · rw [stored, held, List.append_assoc, take_packed_append w vs [v] few]
  · rw [Packer.absorb_accepted, accepted]
    exact (UInt64.ofNat_add _ _).symm
  · rw [Packer.absorb_finished, carried.active]

/-- **The finish whose bytes are not taken whole fails** with the sink's own fault. Every value counts
    as taken, the packer is not finished, and the sink holds the first `n` bytes. -/
theorem ClosesAfter.finish_error (h : ClosesAfter fault n s) (positive : 0 < w.bits)
    (many : n < byteCount (vs.length * w.bits))
    (count : vs.length < (n / w.groupBytes + 1) * w.groupValues) :
    ∃ p t p' s', (Packer.new w).writeAll s vs = (.ok (), p, t) ∧
      p.finish t = (.error (.sink fault), p', s') ∧
      content s' = content s ++ (Bits.packed w.bits vs).take n ∧
      p'.accepted = vs.length.toUInt64 ∧ p'.finished = false := by
  have groups : vs.length / w.groupValues ≤ n / w.groupBytes :=
    Nat.le_of_lt_succ (Nat.div_lt_of_lt_mul (by rwa [Nat.mul_comm]))
  have few : vs.length / w.groupValues * w.groupBytes ≤ n :=
    (Nat.mul_le_mul_right _ groups).trans (Nat.div_mul_le_self _ _)
  obtain ⟨p, t, run, carried, accepted, held, rest⟩ := h.writeAll_ok positive few
  have behind : n - vs.length / w.groupValues * w.groupBytes
      < (Bits.packed w.bits (w.pending vs)).length := by
    have all := congrArg List.length (w.packed_append vs [])
    rw [List.append_nil, List.append_nil, List.length_append, w.length_packed_settled,
      Bits.length_packed] at all
    omega
  obtain ⟨s', refused, stored⟩ := rest.putAll_error behind
  have first := take_packed_append w vs [] few
  rw [List.append_nil, List.append_nil] at first
  refine ⟨p, t, p.align, s', run, carried.finish_of_error refused, ?_, accepted, carried.active⟩
  rw [stored, held, List.append_assoc, first]

/-! ## 3. Lists of values -/

/-- The first bytes of a list are those of its first groups. -/
theorem take_packed_groups {groups after : List UInt32} {q : Nat}
    (whole : groups.length = q * w.groupValues) (few : n ≤ q * w.groupBytes) :
    (Bits.packed w.bits (groups ++ after)).take n = (Bits.packed w.bits groups).take n := by
  have bits : groups.length * w.bits = 8 * (q * w.groupBytes) := by
    rw [whole, Nat.mul_assoc, w.values_mul_bits, Nat.mul_left_comm]
  have bytes : (Bits.packed w.bits groups).length = q * w.groupBytes := by
    rw [Bits.length_packed, bits, byteCount_eight_mul]
  rw [Bits.packed_append ⟨_, bits⟩, List.take_append_of_le_length (few.trans_eq bytes.symm)]

/-- **Packing into a sink that closes.** The sink takes `n` bytes and refuses the next one. If the
    packed bytes are at most as many, nothing fails, and the sink gets them all. Otherwise the write
    that completes the group of the refused byte fails, or the finish if there is no such write; the
    operations before it do not. In both cases the fault is the sink's own, the sink has got the first
    `n` packed bytes, every value written counts as taken, also the one whose write failed, and the
    packer is not finished. -/
theorem packInto_closing (positive : 0 < w.bits) (closes : ClosesAfter fault n s)
    (vs : List UInt32) :
    ∃ bytes, pack vs w.toUInt32 = .ok bytes ∧ bytes.length = byteCount (vs.length * w.bits) ∧
      (bytes.length ≤ n → ∃ p s', packInto w vs s = (.ok (), p, s') ∧
        content s' = content s ++ bytes ∧ p.accepted = vs.length.toUInt64 ∧ p.finished = true) ∧
      (n < bytes.length → (n / w.groupBytes + 1) * w.groupValues ≤ vs.length →
        ∃ before v after p t p' s', vs = before ++ v :: after ∧
          before.length + 1 = (n / w.groupBytes + 1) * w.groupValues ∧
          (Packer.new w).writeAll s before = (.ok (), p, t) ∧
          p.write v t = (.error (.sink fault), p', s') ∧
          packInto w vs s = (.error (.sink fault), p', s') ∧
          content s' = content s ++ bytes.take n ∧
          p'.accepted = (before.length + 1).toUInt64 ∧ p'.finished = false) ∧
      (n < bytes.length → vs.length < (n / w.groupBytes + 1) * w.groupValues →
        ∃ p t p' s', (Packer.new w).writeAll s vs = (.ok (), p, t) ∧
          p.finish t = (.error (.sink fault), p', s') ∧
          packInto w vs s = (.error (.sink fault), p', s') ∧
          content s' = content s ++ bytes.take n ∧
          p'.accepted = vs.length.toUInt64 ∧ p'.finished = false) := by
  have supported : w.toUInt32.toNat ≤ 8 := by
    rw [BitWidth.toNat_toUInt32]
    exact w.bits_le
  have packed := pack_of_supported supported vs
  rw [BitWidth.toNat_toUInt32] at packed
  refine ⟨Bits.packed w.bits vs, packed, Bits.length_packed _ _, ?_, ?_, ?_⟩
  · intro few
    obtain ⟨s', taken, held, -⟩ := closes.putAll_ok few
    obtain ⟨p, run, finished, accepted⟩ := packInto_of_ok taken
    exact ⟨p, s', run, held, accepted, finished⟩
  · intro _ reached
    have some : 0 < (n / w.groupBytes + 1) * w.groupValues :=
      Nat.mul_pos (Nat.succ_pos _) (w.group_bounds positive).1
    obtain ⟨before, v, after, rfl, count⟩ : ∃ before v after, vs = before ++ v :: after ∧
        before.length + 1 = (n / w.groupBytes + 1) * w.groupValues := by
      obtain ⟨k, last⟩ := Nat.exists_eq_add_one.2 some
      have inside : k < vs.length := by omega
      refine ⟨vs.take k, vs[k], vs.drop (k + 1), ?_, ?_⟩
      · rw [← List.drop_eq_getElem_cons inside, List.take_append_drop]
      · rw [List.length_take_of_le (Nat.le_of_lt inside), last]
    obtain ⟨p, t, p', s', run, refused, stored, accepted, active⟩ :=
      closes.write_error positive count v
    have whole : (before ++ [v]).length = (n / w.groupBytes + 1) * w.groupValues := by
      rw [List.length_append, List.length_singleton, count]
    have few : n ≤ (n / w.groupBytes + 1) * w.groupBytes :=
      Nat.le_of_lt (Nat.lt_mul_of_div_lt (Nat.lt_succ_self _) (w.group_bounds positive).2.2.1)
    refine ⟨before, v, after, p, t, p', s', rfl, count, run, refused, ?_, ?_, accepted, active⟩
    · rw [packInto, Packer.writeAll_append, run]
      simp only [Packer.writeAll_cons_of_error refused]
    · rw [stored, List.append_cons before v after, take_packed_groups whole few]
  · intro many count
    rw [Bits.length_packed] at many
    obtain ⟨p, t, p', s', run, refused, stored, accepted, active⟩ :=
      closes.finish_error positive many count
    refine ⟨p, t, p', s', run, refused, ?_, stored, accepted, active⟩
    rw [packInto, run]
    exact refused

end Packing

/-- Nine values of three bits take four bytes: with two bytes taken the eighth write fails, with
    three the finish, with four nothing. -/
theorem packInto_closing_nine_values :
    0 < (⟨3, by decide⟩ : BitWidth).bits ∧
    (∀ n, ClosesAfter .closed n (ScriptedSink.closedAt [n])) ∧
    (∃ p s', packInto ⟨3, by decide⟩ [5, 3, 2, 7, 0, 1, 6, 4, 7] (ScriptedSink.closedAt [2])
        = (.error (.sink .closed), p, s') ∧
      content s' = [0xAD, 0x70] ∧ p.accepted = 8 ∧ p.finished = false) ∧
    (∃ p s', packInto ⟨3, by decide⟩ [5, 3, 2, 7, 0, 1, 6, 4, 7] (ScriptedSink.closedAt [3])
        = (.error (.sink .closed), p, s') ∧
      content s' = [0xAD, 0x70, 0x74] ∧ p.accepted = 9 ∧ p.finished = false) ∧
    (∃ p s', packInto ⟨3, by decide⟩ [5, 3, 2, 7, 0, 1, 6, 4, 7] (ScriptedSink.closedAt [4])
        = (.ok (), p, s') ∧
      content s' = [0xAD, 0x70, 0x74, 0xE0] ∧ p.accepted = 9 ∧ p.finished = true) := by
  have positive : 0 < (⟨3, by decide⟩ : BitWidth).bits := by decide
  have closes : ∀ n, ClosesAfter .closed n (ScriptedSink.closedAt [n]) := by
    intro n
    refine ScriptedSink.closesAfter (fun i hi => ?_) ?_
    · simpa [ScriptedSink.closedAt, ScriptedSink.new] using Nat.ne_of_lt hi
    · simp [ScriptedSink.closedAt, ScriptedSink.new]
  have packed : pack [5, 3, 2, 7, 0, 1, 6, 4, 7] (⟨3, by decide⟩ : BitWidth).toUInt32
      = .ok [0xAD, 0x70, 0x74, 0xE0] := by decide
  refine ⟨positive, closes, ?_, ?_, ?_⟩
  · obtain ⟨bytes, result, -, -, write, -⟩ :=
      packInto_closing positive (closes 2) [5, 3, 2, 7, 0, 1, 6, 4, 7]
    obtain rfl := Except.ok.inj (packed.symm.trans result)
    obtain ⟨before, v, after, p, t, p', s', -, count, -, -, run, stored, accepted, active⟩ :=
      write (by decide) (by decide)
    refine ⟨p', s', run, stored, ?_, active⟩
    rw [accepted, count]
    decide
  · obtain ⟨bytes, result, -, -, -, finish⟩ :=
      packInto_closing positive (closes 3) [5, 3, 2, 7, 0, 1, 6, 4, 7]
    obtain rfl := Except.ok.inj (packed.symm.trans result)
    obtain ⟨p, t, p', s', -, -, run, stored, accepted, active⟩ := finish (by decide) (by decide)
    exact ⟨p', s', run, stored, accepted, active⟩
  · obtain ⟨bytes, result, -, all, -, -⟩ :=
      packInto_closing positive (closes 4) [5, 3, 2, 7, 0, 1, 6, 4, 7]
    obtain rfl := Except.ok.inj (packed.symm.trans result)
    exact all (by decide)

end PackedInts
