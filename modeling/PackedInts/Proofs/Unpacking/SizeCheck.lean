import PackedInts.Proofs.RoundTrip
import PackedInts.Proofs.Unpacking.Reads

/-!
# A size check that agrees with the reads

Unpacking a list computes the bytes that it needs and compares them with those at hand before it
reads anything. The reads themselves know nothing of that number: each takes a byte when its value
reaches into one. The two never disagree, so a list is refused for want of bytes exactly if one of
its reads would fail.

* `byteCount_le_iff_forall` -- so many bytes are enough exactly if every value lies within them;
* `UnpackSession.exists_failed_read_iff`, `UnpackSession.results_of_enough` -- when one of a number
  of reads fails, and what they come to if none does;
* `unpack_of_short`, `unpack_of_tooMany` -- the refusals that come after the size;
* **`unpack_agrees_with_reads`** -- unpacking a list beside as many reads.
-/

namespace PackedInts

/-! ## 1. Reads of a new unpacker -/

/-- **So many bytes are enough exactly if every value lies within them.** -/
theorem byteCount_le_iff_forall {n w bytes : Nat} :
    byteCount (n * w) ≤ bytes ↔ ∀ k < n, (k + 1) * w ≤ 8 * bytes := by
  have whole : byteCount (n * w) ≤ bytes ↔ n * w ≤ 8 * bytes := by
    simp only [byteCount]
    omega
  rw [whole]
  constructor
  · intro enough k hk
    exact Nat.le_trans (Nat.mul_le_mul_right w hk) enough
  · intro inside
    cases n with
    | zero => simp
    | succ k => exact inside k (Nat.lt_succ_self k)

namespace UnpackSession

variable {w : BitWidth} {b : Bytes}

theorem reports_eq (w : BitWidth) (b : Bytes) (n : Nat) :
    ((UnpackSession.mk (.new w) (MemorySource.mk b)).run MemorySource.obey
      (List.replicate n .read)).1 = (List.range n).map (readReport w b) := by
  have seen := ((holds_start w b).run_reads n).1
  simpa only [Nat.zero_add] using seen

/-- **One of a number of reads fails exactly if the bytes of all of them are not there.** -/
theorem exists_failed_read_iff (w : BitWidth) (b : Bytes) (n : Nat) :
    (∃ report ∈ ((UnpackSession.mk (.new w) (MemorySource.mk b)).run MemorySource.obey
        (List.replicate n .read)).1, ∃ e, report.result = .error e) ↔
      b.length < byteCount (n * w.bits) := by
  have failed : ∀ k, (∃ e, (readReport w b k).result = .error e) ↔
      ¬ (k + 1) * w.bits ≤ 8 * b.length := by
    intro k
    unfold readReport
    split <;> simp [*]
  rw [← Nat.not_le, byteCount_le_iff_forall, reports_eq]
  simp only [List.mem_map, exists_exists_and_eq_and, failed, List.mem_range, not_forall,
    exists_prop]

/-- If they are there, the reads give the windows of the bytes. -/
theorem results_of_enough {n : Nat} (enough : byteCount (n * w.bits) ≤ b.length) :
    ((UnpackSession.mk (.new w) (MemorySource.mk b)).run MemorySource.obey
      (List.replicate n .read)).1.map UnpackReport.result
      = ((List.range n).map fun k =>
          (Bits.window (Bits.ofBytes b) (k * w.bits) w.bits).toUInt32).map
        fun v => .ok (.value v) := by
  rw [reports_eq, List.map_map, List.map_map]
  refine List.map_congr_left fun k hk => ?_
  have inside := byteCount_le_iff_forall.1 enough k (List.mem_range.1 hk)
  show (readReport w b k).result = _
  rw [readReport, if_pos inside]
  rfl

end UnpackSession

/-! ## 2. Unpacking -/

section Unpack

variable {bytes : Bytes} {count : UInt64} {width : UInt32}

/-- Fewer bytes than the values take are refused. -/
theorem unpack_of_short (supported : width.toNat ≤ 8)
    (fits : count.toNat * width.toNat + 7 < 2 ^ 64)
    (short : bytes.length < byteCount (count.toNat * width.toNat)) :
    unpack bytes count width = .error .exhausted := by
  obtain ⟨size, sized, toNat_size⟩ := packedSize_of_fits supported fits
  have ofWidth : BitWidth.ofUInt32 width = .ok ⟨width.toNat, supported⟩ := dif_pos supported
  rw [← toNat_size] at short
  rw [unpack, sized, ofWidth]
  exact if_pos short

/-- More values than a list can hold are refused, if there are bytes for them. -/
theorem unpack_of_tooMany (supported : width.toNat ≤ 8)
    (fits : count.toNat * width.toNat + 7 < 2 ^ 64) (many : maxValues < count)
    (enough : byteCount (count.toNat * width.toNat) ≤ bytes.length) :
    unpack bytes count width = .error .tooManyValues := by
  obtain ⟨size, sized, toNat_size⟩ := packedSize_of_fits supported fits
  have ofWidth : BitWidth.ofUInt32 width = .ok ⟨width.toNat, supported⟩ := dif_pos supported
  rw [← toNat_size] at enough
  rw [unpack, sized, ofWidth]
  show (if bytes.length < size.toNat then _ else _) = _
  rw [if_neg (Nat.not_lt.2 enough), if_pos many]

/-- **Unpacking a list agrees with as many reads.** A width above eight is refused, then a count
    whose size cannot be said, then, at width zero, one that no list can hold. In every other case
    the list is refused for want of bytes exactly if one of so many reads of a new unpacker over the
    bytes fails, and if it is not refused, then it is what these reads give. -/
theorem unpack_agrees_with_reads (short : bytes.length ≤ 2 ^ 31 - 1) (count : UInt64)
    (width : UInt32) :
    (8 < width.toNat → unpack bytes count width = .error (.unsupportedWidth width)) ∧
    (width.toNat ≤ 8 → 0 < width.toNat → 2 ^ 64 - 1 < count.toNat * width.toNat + 7 →
      packedSize count width = .error (.sizeOverflow count width) ∧
      unpack bytes count width = .error (.sizeOverflow count width)) ∧
    (width.toNat = 0 → 2 ^ 61 - 1 < count.toNat →
      unpack bytes count width = .error .tooManyValues ∧
      PackingError.tooManyValues.message = ascii "vector::reserve") ∧
    (width.toNat ≤ 8 → count.toNat * width.toNat + 7 ≤ 2 ^ 64 - 1 →
      (width.toNat = 0 → count.toNat ≤ 2 ^ 61 - 1) →
      ∃ session reports last,
        UnpackSession.start width (MemorySource.mk bytes) = .ok session ∧
        session.run MemorySource.obey (List.replicate count.toNat .read) = (reports, last) ∧
        (unpack bytes count width = .error .exhausted ↔
          ∃ report ∈ reports, ∃ e, report.result = .error e) ∧
        (unpack bytes count width ≠ .error .exhausted →
          ∃ vs, unpack bytes count width = .ok vs ∧
            reports.map UnpackReport.result = vs.map fun v => .ok (.value v))) := by
  refine ⟨fun unsupported => ?_, fun supported positive leaves => ?_, fun zero many => ?_,
    fun supported fits listed => ?_⟩
  · refine unpack_of_size_error ?_ bytes
    rw [packedSize_eq, if_pos unsupported]
  · have refused : packedSize count width = .error (.sizeOverflow count width) := by
      rw [packedSize_eq, if_neg (Nat.not_lt.2 supported), if_pos leaves]
    exact ⟨refused, unpack_of_size_error refused bytes⟩
  · have none : count.toNat * width.toNat = 0 := by rw [zero, Nat.mul_zero]
    refine ⟨unpack_of_tooMany (by omega) (by omega) (UInt64.lt_iff_toNat_lt.2 many) ?_, rfl⟩
    rw [none]
    exact Nat.zero_le _
  · have start : UnpackSession.start width (MemorySource.mk bytes)
        = .ok ⟨.new ⟨width.toNat, supported⟩, ⟨bytes⟩⟩ := by
      have ofWidth : BitWidth.ofUInt32 width = .ok ⟨width.toNat, supported⟩ := dif_pos supported
      rw [UnpackSession.start, ofWidth]
      rfl
    refine ⟨_, _, _, start, rfl, ?_⟩
    rw [UnpackSession.exists_failed_read_iff]
    rcases Nat.lt_or_ge bytes.length (byteCount (count.toNat * width.toNat)) with few | enough
    · have refused := unpack_of_short supported (by omega) few
      exact ⟨iff_of_true refused few, fun read => absurd refused read⟩
    · -- bytes for so many values are there, so at a positive width the values are few enough
      have small : count ≤ maxValues := by
        refine UInt64.le_iff_toNat_le.2 (show count.toNat ≤ 2 ^ 61 - 1 from ?_)
        rcases Nat.eq_zero_or_pos width.toNat with zero | positive
        · exact listed zero
        · have reach := le_eight_mul_byteCount (count.toNat * width.toNat)
          have values := Nat.le_mul_of_pos_right count.toNat positive
          omega
      have read := unpack_of_enough supported (by omega) small enough
      refine ⟨iff_of_false ?_ (Nat.not_lt.2 enough), fun _ => ⟨_, read, ?_⟩⟩
      · rw [read]
        nofun
      · exact UnpackSession.results_of_enough enough

end Unpack

/-- Two bytes hold five values of three bits, and no sixth one. Too wide a value, a size that cannot
    be said and a list that cannot be held are refused. -/
theorem unpack_agrees_with_reads_of_two_bytes :
    ([0xAB, 0x80] : Bytes).length ≤ 2 ^ 31 - 1 ∧
      unpack [0xAB, 0x80] 1 9 = .error (.unsupportedWidth 9) ∧
      unpack [0xAB, 0x80] 6148914691236517203 3
        = .error (.sizeOverflow 6148914691236517203 3) ∧
      unpack [0xAB, 0x80] 2305843009213693952 0 = .error .tooManyValues ∧
      (∃ session reports last,
        UnpackSession.start 3 (MemorySource.mk [0xAB, 0x80]) = .ok session ∧
        session.run MemorySource.obey (List.replicate 5 .read) = (reports, last) ∧
        unpack [0xAB, 0x80] 5 3 = .ok [5, 2, 7, 0, 0] ∧
        reports.map UnpackReport.result
          = ([5, 2, 7, 0, 0] : List UInt32).map fun v => .ok (.value v)) ∧
      ∃ session reports last,
        UnpackSession.start 3 (MemorySource.mk [0xAB, 0x80]) = .ok session ∧
        session.run MemorySource.obey (List.replicate 6 .read) = (reports, last) ∧
        unpack [0xAB, 0x80] 6 3 = .error .exhausted ∧
        ∃ report ∈ reports, ∃ e, report.result = .error e := by
  have short : ([0xAB, 0x80] : Bytes).length ≤ 2 ^ 31 - 1 := by decide
  have five : unpack [0xAB, 0x80] 5 3 = .ok [5, 2, 7, 0, 0] := rfl
  have six : unpack [0xAB, 0x80] 6 3 = .error .exhausted := rfl
  refine ⟨short, (unpack_agrees_with_reads short 1 9).1 (by decide),
    ((unpack_agrees_with_reads short 6148914691236517203 3).2.1 (by decide) (by decide)
      (by decide)).2,
    ((unpack_agrees_with_reads short 2305843009213693952 0).2.2.1 (by decide) (by decide)).1,
    ?_, ?_⟩
  · obtain ⟨session, reports, last, start, run, -, read⟩ :=
      (unpack_agrees_with_reads short 5 3).2.2.2 (by decide) (by decide) (by decide)
    obtain ⟨vs, unpacked, results⟩ := read (by rw [five]; nofun)
    obtain rfl := Except.ok.inj (unpacked.symm.trans five)
    exact ⟨session, reports, last, start, run, five, results⟩
  · obtain ⟨session, reports, last, start, run, refused, -⟩ :=
      (unpack_agrees_with_reads short 6 3).2.2.2 (by decide) (by decide) (by decide)
    exact ⟨session, reports, last, start, run, six, refused.1 six⟩

end PackedInts
