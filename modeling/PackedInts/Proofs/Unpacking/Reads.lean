import PackedInts.Session.Unpacking
import PackedInts.Proofs.Unpacking.Reading

/-!
# Reads from a source in memory

An unpacker over bytes in memory gives the windows of their bits one after the other, takes a byte
only when a value reaches into it, and fails from the first value on that reaches behind the last
byte.

* `Unpacker.Reached.read_ok_of_memory`, `Unpacker.Reached.read_exhausted_of_memory` -- one read;
* `UnpackSession.Holds` -- what a session of reads keeps, also behind its first failure;
* **`run_reads_of_memory`** -- every read of a session, by its number.
-/

namespace PackedInts

/-! ## 1. One read -/

namespace Unpacker.Reached

variable {w : BitWidth} {u : Unpacker} {b : Bytes} {m : Nat}

theorem byteCount_le_length (h : Reached w u (b.take (byteCount (m * w.bits))) m) :
    byteCount (m * w.bits) ≤ b.length := by
  have := h.length_consumed
  rw [List.length_take] at this
  omega

theorem length_taken (h : Reached w u (b.take (byteCount (m * w.bits))) m) :
    (b.take (byteCount (m * w.bits))).length = byteCount (m * w.bits) := by
  rw [List.length_take, Nat.min_eq_left h.byteCount_le_length]

/-- **A value that lies within the bytes is read** as the window of its place. -/
theorem read_ok_of_memory (h : Reached w u (b.take (byteCount (m * w.bits))) m)
    (inside : (m + 1) * w.bits ≤ 8 * b.length) :
    ∃ u', u.read (MemorySource.mk (b.drop (byteCount (m * w.bits))))
        = (.ok (Bits.window (Bits.ofBytes b) (m * w.bits) w.bits).toUInt32, u',
          MemorySource.mk (b.drop (byteCount ((m + 1) * w.bits)))) ∧
      Reached w u' (b.take (byteCount ((m + 1) * w.bits))) (m + 1) := by
  have enough : byteCount ((m + 1) * w.bits) ≤ b.length := by
    simp only [byteCount]
    omega
  have reach : m * w.bits + w.bits ≤ 8 * byteCount ((m + 1) * w.bits) := by
    rw [← Nat.succ_mul]
    exact le_eight_mul_byteCount _
  rcases h.held_or_needs with held | needs
  · obtain ⟨u', first, reached⟩ := h.read_of_held held (MemorySource.mk (b.drop _))
    rw [h.length_taken] at held
    rw [← held] at first reached ⊢
    refine ⟨u', ?_, reached⟩
    rw [first, Bits.window_take enough reach]
  · rw [h.length_taken] at needs
    have next : byteCount (m * w.bits) < b.length := by omega
    have split : b.drop (byteCount (m * w.bits))
        = b[byteCount (m * w.bits)] :: b.drop (byteCount (m * w.bits) + 1) :=
      List.drop_eq_getElem_cons next
    have polled : poll (MemorySource.mk (b.drop (byteCount (m * w.bits))))
        = (.ok (some b[byteCount (m * w.bits)]),
          MemorySource.mk (b.drop (byteCount (m * w.bits) + 1))) := by
      rw [split, MemorySource.poll_cons]
    obtain ⟨u', first, reached⟩ := h.read_of_some (by rw [h.length_taken, needs]) polled
    rw [List.take_concat_get' b _ next, ← needs] at first reached
    refine ⟨u', ?_, reached⟩
    rw [first, needs, ← needs, Bits.window_take enough reach]

/-- **A value that reaches behind the bytes is not read**, and all bytes are taken by then. -/
theorem read_exhausted_of_memory (h : Reached w u (b.take (byteCount (m * w.bits))) m)
    (outside : 8 * b.length < (m + 1) * w.bits) :
    b.drop (byteCount (m * w.bits)) = [] ∧
      ∃ u', u.read (MemorySource.mk []) = (.error .exhausted, u', MemorySource.mk []) ∧
        Reached w u' (b.take (byteCount (m * w.bits))) m := by
  have le := h.byteCount_le_length
  have behind := le_eight_mul_byteCount ((m + 1) * w.bits)
  rcases h.held_or_needs with held | needs
  · rw [h.length_taken] at held
    omega
  · have all : b.length = byteCount (m * w.bits) := by
      rw [h.length_taken] at needs
      omega
    refine ⟨by rw [← all, List.drop_length], u.openGroup, ?_, ?_⟩
    · exact h.read_of_none needs MemorySource.poll_nil
    · exact h.openGroup (h.positive_of_needs needs)

end Unpacker.Reached

/-! ## 2. Sessions of reads -/

/-- What is seen of the read number `k` of a session over the bytes `b`. -/
def readReport (w : BitWidth) (b : Bytes) (k : Nat) : UnpackReport :=
  if (k + 1) * w.bits ≤ 8 * b.length then
    { result := .ok (.value (Bits.window (Bits.ofBytes b) (k * w.bits) w.bits).toUInt32)
      remaining := b.length - byteCount ((k + 1) * w.bits)
      width := w }
  else { result := .error .exhausted, remaining := 0, width := w }

namespace UnpackSession

/-- **What a session of `k` reads keeps**: the unpacker has read `m` values out of the bytes that
    the source gave, and these are all `k`, or the next one reaches behind the bytes. -/
def Holds (w : BitWidth) (b : Bytes) (k : Nat) (s : UnpackSession MemorySource) : Prop :=
  ∃ m, Unpacker.Reached w s.unpacker (b.take (byteCount (m * w.bits))) m ∧
    s.source = ⟨b.drop (byteCount (m * w.bits))⟩ ∧
    (m = k ∨ m ≤ k ∧ 8 * b.length < (m + 1) * w.bits)

theorem holds_start (w : BitWidth) (b : Bytes) : Holds w b 0 ⟨.new w, ⟨b⟩⟩ := by
  refine ⟨0, ?_, ?_, .inl rfl⟩
  · rw [Nat.zero_mul]
    exact .fresh
  · rw [Nat.zero_mul]
    rfl

/-- **One read of a session**: it is seen as its number says, and the session goes on. -/
theorem Holds.step_read {w : BitWidth} {b : Bytes} {k : Nat} {s : UnpackSession MemorySource}
    (h : Holds w b k s) :
    (s.step MemorySource.obey .read).1 = readReport w b k ∧
      Holds w b (k + 1) (s.step MemorySource.obey .read).2 := by
  obtain ⟨u, source⟩ := s
  obtain ⟨m, reached, rfl, place⟩ := h
  have later : m ≤ k → (m + 1) * w.bits ≤ (k + 1) * w.bits := fun le =>
    Nat.mul_le_mul_right _ (Nat.succ_le_succ le)
  by_cases inside : (m + 1) * w.bits ≤ 8 * b.length
  · have same : m = k := by
      rcases place with same | ⟨-, outside⟩
      · exact same
      · omega
    subst same
    obtain ⟨u', read, reached'⟩ := reached.read_ok_of_memory inside
    simp only [step, perform, read, readReport, if_pos inside, MemorySource.pending_eq,
      List.length_drop, reached'.width_eq, Except.map, true_and]
    exact ⟨m + 1, reached', rfl, .inl rfl⟩
  · -- behind the first failure the session goes on and the unpacker stays where it is
    have outside : ¬ (k + 1) * w.bits ≤ 8 * b.length := by
      rcases place with rfl | ⟨le, -⟩
      · exact inside
      · have := later le
        omega
    obtain ⟨empty, u', read, reached'⟩ := reached.read_exhausted_of_memory (Nat.lt_of_not_le inside)
    simp only [step, perform, empty, read, readReport, if_neg outside, MemorySource.pending_eq,
      List.length_nil, reached'.width_eq, Except.map, true_and]
    refine ⟨m, reached', by rw [empty], .inr ⟨?_, Nat.lt_of_not_le inside⟩⟩
    rcases place with rfl | ⟨le, -⟩ <;> omega

theorem Holds.run_reads {w : BitWidth} {b : Bytes} {k : Nat} {s : UnpackSession MemorySource}
    (h : Holds w b k s) (n : Nat) :
    (s.run MemorySource.obey (List.replicate n .read)).1
        = (List.range n).map (fun j => readReport w b (k + j)) ∧
      Holds w b (k + n) (s.run MemorySource.obey (List.replicate n .read)).2 := by
  induction n generalizing k s with
  | zero => exact ⟨rfl, h⟩
  | succ n ih =>
    obtain ⟨seen, next⟩ := h.step_read
    obtain ⟨others, last⟩ := ih next
    have count : k + (n + 1) = k + 1 + n := by omega
    rw [List.replicate_succ, run, count, map_range_add_succ (readReport w b)]
    refine ⟨?_, last⟩
    simp only [seen, others]

/-- After a number of reads the source is left behind the bytes that they reach into. -/
theorem Holds.source_eq {w : BitWidth} {b : Bytes} {k : Nat} {s : UnpackSession MemorySource}
    (h : Holds w b k s) : s.source = ⟨b.drop (byteCount (k * w.bits))⟩ := by
  obtain ⟨m, reached, source, rfl | ⟨le, outside⟩⟩ := h
  · exact source
  · have all := (reached.read_exhausted_of_memory outside).1
    have further : byteCount (m * w.bits) ≤ byteCount (k * w.bits) :=
      byteCount_mono (Nat.mul_le_mul_right _ le)
    rw [source, all, List.drop_eq_nil_of_le (Nat.le_trans (List.drop_eq_nil_iff.1 all) further)]

end UnpackSession

/-- **Every read from a source in memory, by its number.** The read number `k` succeeds exactly when
    its bits lie within the bytes, gives their window, and leaves the source behind the last byte
    that they reach into; the first read that fails has taken all bytes, and every later one fails
    too. At width zero every read gives zero and the source is as it was. -/
theorem run_reads_of_memory (w : BitWidth) (b : Bytes) (n : Nat) :
    ∃ reports last,
      (UnpackSession.mk (.new w) (MemorySource.mk b)).run MemorySource.obey
        (List.replicate n .read) = (reports, last) ∧
      reports.length = n ∧
      (∀ k < n, (k + 1) * w.bits ≤ 8 * b.length → reports[k]? = some
        { result := .ok (.value (Bits.window (Bits.ofBytes b) (k * w.bits) w.bits).toUInt32)
          remaining := b.length - byteCount ((k + 1) * w.bits)
          width := w }) ∧
      (∀ k < n, 8 * b.length < (k + 1) * w.bits → ∀ j < n, k ≤ j → reports[j]? = some
        { result := .error .exhausted, remaining := 0, width := w }) ∧
      (w.bits = 0 → last.source = ⟨b⟩ ∧ ∀ report ∈ reports,
        report = { result := .ok (.value 0), remaining := b.length, width := w }) ∧
      last.source = ⟨b.drop (byteCount (n * w.bits))⟩ := by
  obtain ⟨seen, holds⟩ := (UnpackSession.holds_start w b).run_reads n
  have source := holds.source_eq
  simp only [Nat.zero_add] at seen source
  have report : ∀ k < n, ((List.range n).map (readReport w b))[k]? = some (readReport w b k) := by
    intro k hk
    rw [List.getElem?_map, List.getElem?_range hk, Option.map_some]
  refine ⟨_, _, rfl, ?_, ?_, ?_, ?_, source⟩
  · rw [seen, List.length_map, List.length_range]
  · intro k hk inside
    rw [seen, report k hk, readReport, if_pos inside]
  · intro k hk outside j hj le
    have later := Nat.mul_le_mul_right w.bits (Nat.add_le_add_right le 1)
    rw [seen, report j hj, readReport, if_neg]
    omega
  · intro zero
    refine ⟨by rw [source, zero, Nat.mul_zero]; rfl, fun r hr => ?_⟩
    rw [seen, List.mem_map] at hr
    obtain ⟨k, -, rfl⟩ := hr
    rw [readReport, zero, Nat.mul_zero, if_pos (Nat.zero_le _), Bits.window_zero_width]
    rfl

/-- Two bytes hold five values of three bits; the sixth read takes nothing and fails, as does the
    seventh. -/
theorem run_reads_of_two_bytes :
    ∃ reports last,
      (UnpackSession.mk (.new ⟨3, by decide⟩) (MemorySource.mk [0xAB, 0x80])).run MemorySource.obey
        (List.replicate 7 .read) = (reports, last) ∧
      reports[2]? = some ⟨.ok (.value 7), 0, ⟨3, by decide⟩⟩ ∧
      reports[5]? = some ⟨.error .exhausted, 0, ⟨3, by decide⟩⟩ ∧
      reports[6]? = some ⟨.error .exhausted, 0, ⟨3, by decide⟩⟩ := by
  obtain ⟨reports, last, run, -, inside, outside, -, -⟩ :=
    run_reads_of_memory ⟨3, by decide⟩ [0xAB, 0x80] 7
  exact ⟨reports, last, run, inside 2 (by decide) (by decide),
    outside 5 (by decide) (by decide) 5 (by decide) (by decide),
    outside 5 (by decide) (by decide) 6 (by decide) (by decide)⟩

end PackedInts
