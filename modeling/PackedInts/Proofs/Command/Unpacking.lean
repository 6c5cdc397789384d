import Mathlib
import PackedInts.Proofs.Command.Arguments
import PackedInts.Proofs.Command.Outcome
import PackedInts.Proofs.RoundTrip

/-!
# Unpacking any file

A file of raw bytes can be unpacked whatever its bytes are, as long as there are enough of them. How
many are enough is told by one number, the bytes that the bits of all values take: fewer are refused
before anything is written, more are warned of, and what is written depends on so many only.

* `Bits.values` -- the values that stand in bytes from the first bit on;
* `Bits.values_take` -- bytes behind the last value do not matter;
* `unpackBytes_of_enough`, `unpackBytes_of_few` -- what is made of bytes;
* **`run_unpack_of_content`** -- a run on any file.
-/

namespace PackedInts

/-! ## 1. Counts as words -/

section Count

variable {n : Nat}

theorem toNat_count (few : n ≤ 2 ^ 61 - 1) : n.toUInt64.toNat = n :=
  Nat.mod_eq_of_lt (by omega)

/-- The size of a list that memory can hold does not leave the word. -/
theorem count_fits (w : BitWidth) (few : n ≤ 2 ^ 61 - 1) :
    n.toUInt64.toNat * w.toUInt32.toNat + 7 < 2 ^ 64 := by
  have bound : n * w.bits ≤ (2 ^ 61 - 1) * 8 := Nat.mul_le_mul few w.bits_le
  rw [toNat_count few, w.toNat_toUInt32]
  omega

/-- So many values of a width have a size, and it is the bytes that their bits take. -/
theorem packedSize_of_few (w : BitWidth) (few : n ≤ 2 ^ 61 - 1) :
    ∃ size, packedSize n.toUInt64 w.toUInt32 = .ok size ∧ size.toNat = byteCount (n * w.bits) := by
  obtain ⟨size, sized, toNat_size⟩ := packedSize_of_fits w.toUInt32_supported (count_fits w few)
  rw [toNat_count few, w.toNat_toUInt32] at toNat_size
  exact ⟨size, sized, toNat_size⟩

end Count

/-! ## 2. Values in bytes -/

/-- The values that stand in bytes one behind the other, each of so many bits. -/
def Bits.values (w n : Nat) (bytes : Bytes) : List UInt32 :=
  (List.range n).map fun i => (window (ofBytes bytes) (i * w) w).toUInt32

@[simp] theorem Bits.length_values (w n : Nat) (bytes : Bytes) : (values w n bytes).length = n := by
  rw [values, List.length_map, List.length_range]

/-- **Bytes behind the last value do not matter.** -/
theorem Bits.values_take {w n : Nat} {bytes : Bytes} (enough : byteCount (n * w) ≤ bytes.length) :
    values w n (bytes.take (byteCount (n * w))) = values w n bytes := by
  refine List.map_congr_left fun i member => ?_
  have inside : i * w + w ≤ n * w := by
    rw [← Nat.succ_mul]
    exact Nat.mul_le_mul_right w (List.mem_range.1 member)
  rw [window_take enough (Nat.le_trans inside (le_eight_mul_byteCount _))]

/-! ## 3. What is made of bytes -/

section Make

variable {w : BitWidth} {n : Nat} {packed : Bytes}

/-- **Enough bytes make the text of their values**, and the others are warned of. -/
theorem unpackBytes_of_enough (few : n ≤ 2 ^ 61 - 1)
    (enough : byteCount (n * w.bits) ≤ packed.length) :
    unpackBytes w n.toUInt64 packed =
      ⟨trailingWarning (packed.length - byteCount (n * w.bits)),
        .ok (ValueList.format (Bits.values w.bits n packed),
          unpackSummary n (byteCount (n * w.bits)))⟩ := by
  obtain ⟨size, sized, toNat_size⟩ := packedSize_of_few w few
  have listed : n.toUInt64 ≤ maxValues := by
    rw [UInt64.le_iff_toNat_le, toNat_count few]
    exact few
  have read : unpack packed n.toUInt64 w.toUInt32 = .ok (Bits.values w.bits n packed) := by
    rw [← toNat_count few, ← w.toNat_toUInt32] at enough
    have windows := unpack_of_enough w.toUInt32_supported (count_fits w few) listed enough
    rw [toNat_count few, w.toNat_toUInt32] at windows
    exact windows
  unfold unpackBytes
  rw [sized]
  dsimp only
  rw [toNat_size, if_neg (Nat.not_lt.2 enough), read]
  dsimp only
  rw [Bits.length_values]

/-- **Fewer are refused**, with all numbers named. -/
theorem unpackBytes_of_few (few : n ≤ 2 ^ 61 - 1) (short : packed.length < byteCount (n * w.bits)) :
    ∃ size : UInt64, size.toNat = byteCount (n * w.bits) ∧
      unpackBytes w n.toUInt64 packed
        = ⟨[], .error (.inputTooShort packed.length n.toUInt64 w size)⟩ := by
  obtain ⟨size, sized, toNat_size⟩ := packedSize_of_few w few
  rw [← toNat_size] at short
  exact ⟨size, toNat_size, unpackBytes_of_short sized short⟩

end Make

/-! ## 4. A run -/

section Run

variable {τ σ : Type} (codec : Base64.Codec τ σ) {w : BitWidth} {n : Nat}
  {input output content : Bytes} {t : FileTree} {arguments : List Bytes}

/-- An unpacking of a file with enough bytes writes the text of their values. -/
theorem run_unpack_of_enough (few : n ≤ 2 ^ 61 - 1) (given : t.read input = .ok content)
    (opens : t.Opens output)
    (asked : Request.parse arguments = .ok (.unpack w n.toUInt64 false input output))
    (enough : byteCount (n * w.bits) ≤ content.length) :
    ∃ t', runWith codec arguments t = (.success (unpackSummary n (byteCount (n * w.bits)))
        (trailingWarning (content.length - byteCount (n * w.bits))), t') ∧
      t.Writes t' output (ValueList.format (Bits.values w.bits n content)) := by
  obtain ⟨t', written⟩ := FileTree.write_of_opens opens
    (ValueList.format (Bits.values w.bits n content))
  have made : unpackProduct codec w n.toUInt64 false content = _ := unpackBytes_of_enough few enough
  refine ⟨t', ?_, FileTree.write_of_ok written⟩
  rw [runWith_of_parse_ok asked]
  exact Job.perform_of_written (FileTree.readInput_eq_ok_iff.2 given) made written

/-- An unpacking of a file with fewer bytes fails and leaves the tree alone. -/
theorem run_unpack_of_few (few : n ≤ 2 ^ 61 - 1) (given : t.read input = .ok content)
    (asked : Request.parse arguments = .ok (.unpack w n.toUInt64 false input output))
    (short : content.length < byteCount (n * w.bits)) :
    ∃ size : UInt64, size.toNat = byteCount (n * w.bits) ∧
      runWith codec arguments t
        = (.failure [] (.inputTooShort content.length n.toUInt64 w size), t) := by
  obtain ⟨size, toNat_size, unmade⟩ := unpackBytes_of_few (w := w) few short
  have refused : unpackProduct codec w n.toUInt64 false content = _ := unmade
  refine ⟨size, toNat_size, ?_⟩
  rw [runWith_of_parse_ok asked]
  exact Job.perform_of_unmade (FileTree.readInput_eq_ok_iff.2 given) refused

/-- **A run that unpacks any file** succeeds exactly if the file has the bytes that the values take.
    Then the output holds the values that stand in the first bytes, one to a line, whatever stands
    behind these, and the error output is empty or names the number of the bytes behind. Otherwise the
    run fails, names what is there, what was asked for and what is missing, and leaves the tree
    alone. -/
theorem run_unpack_of_content (few : n ≤ 2 ^ 61 - 1) (given : t.read input = .ok content)
    (opens : t.Opens output) :
    Request.parse (unpackArguments w n false input output)
        = .ok (.unpack w n.toUInt64 false input output) ∧
      ∀ arguments, Request.parse arguments = .ok (.unpack w n.toUInt64 false input output) →
        ∃ report t', runWith codec arguments t = (report, t') ∧
          (report.exit = 0 ↔ byteCount (n * w.bits) ≤ content.length) ∧
          (byteCount (n * w.bits) ≤ content.length →
            t'.read output = .ok (ValueList.format (Bits.values w.bits n content)) ∧
            Bits.values w.bits n content
              = Bits.values w.bits n (content.take (byteCount (n * w.bits))) ∧
            report.stderr = if content.length = byteCount (n * w.bits) then [] else
              ascii "Warning: ignoring "
                ++ Numeral.decimal (content.length - byteCount (n * w.bits))
                ++ ascii " trailing bytes\n") ∧
          (content.length < byteCount (n * w.bits) →
            report.exit = 1 ∧ t' = t ∧
            report.stderr = ascii "Error: " ++ (ascii "Packed input holds "
              ++ Numeral.decimal content.length ++ ascii " bytes but " ++ Numeral.decimal n
              ++ ascii " values at width " ++ Numeral.decimal w.bits ++ ascii " need "
              ++ Numeral.decimal (byteCount (n * w.bits))) ++ ascii "\n") := by
  refine ⟨parse_unpackArguments (by omega) (FileTree.ne_nil_of_read given) opens.ne_nil,
    fun arguments asked => ?_⟩
  rcases Nat.lt_or_ge content.length (byteCount (n * w.bits)) with short | enough
  · obtain ⟨size, toNat_size, ended⟩ := run_unpack_of_few codec few given asked short
    have failed : (1 : UInt32) ≠ 0 := by decide
    refine ⟨_, _, ended, iff_of_false failed (Nat.not_le.2 short),
      fun enough => absurd short (Nat.not_lt.2 enough), fun _ => ⟨rfl, rfl, ?_⟩⟩
    show [] ++ ascii "Error: " ++ CommandError.message _ ++ ascii "\n" = _
    rw [List.nil_append, CommandError.message, toNat_count few, toNat_size]
  · obtain ⟨t', ended, writes⟩ := run_unpack_of_enough codec few given opens asked enough
    refine ⟨_, _, ended, iff_of_true rfl enough,
      fun _ => ⟨writes.read, (Bits.values_take enough).symm, ?_⟩,
      fun short => absurd short (Nat.not_lt.2 enough)⟩
    have exact_size : content.length - byteCount (n * w.bits) = 0
        ↔ content.length = byteCount (n * w.bits) := by
      omega
    show trailingWarning _ = _
    unfold trailingWarning
    simp only [exact_size]

end Run

/-- Five values of three bits from a file of three bytes at the root, the last of which is warned of, and
    nine of them, which need a fourth. The root stands above itself, and a file of the same name in the
    working directory is another one. -/
theorem run_unpack_of_content_two_bytes :
    ∃ t : FileTree,
      t = .ofEntries [(ascii "/p", some [0xAB, 0x80, 0x11]), (ascii "p", some [0xFF])] ∧
      (∃ report t', run (unpackArguments ⟨3, by decide⟩ 5 false (ascii "/../p") (ascii "v")) t
          = (report, t') ∧
        report.exit = 0 ∧ t'.read (ascii "v") = .ok (ascii "5\n2\n7\n0\n0\n") ∧
        report.stderr = ascii "Warning: ignoring 1 trailing bytes\n") ∧
      ∃ report, run (unpackArguments ⟨3, by decide⟩ 9 false (ascii "//p") (ascii "v")) t
          = (report, t) ∧
        report.exit = 1 ∧
        report.stderr
          = ascii "Error: Packed input holds 3 bytes but 9 values at width 3 need 4\n" := by
  obtain ⟨t, tree⟩ : ∃ t : FileTree,
      t = .ofEntries [(ascii "/p", some [0xAB, 0x80, 0x11]), (ascii "p", some [0xFF])] :=
    ⟨_, rfl⟩
  have given : t.read (ascii "/../p") = .ok [0xAB, 0x80, 0x11] ∧
      t.read (ascii "//p") = .ok [0xAB, 0x80, 0x11] := by
    subst tree
    decide +kernel
  have opens : t.Opens (ascii "v") := by
    subst tree
    decide +kernel
  refine ⟨t, tree, ?_, ?_⟩
  · obtain ⟨asked, ended⟩ := run_unpack_of_content Base64.standardCodec (w := ⟨3, by decide⟩) (n := 5)
      (by decide) given.1 opens
    obtain ⟨report, t', ran, success, whole, -⟩ := ended _ asked
    obtain ⟨read, -, warned⟩ := whole (by decide)
    have values : ValueList.format (Bits.values 3 5 [0xAB, 0x80, 0x11])
        = ascii "5\n2\n7\n0\n0\n" := by
      decide +kernel
    rw [values] at read
    exact ⟨report, t', ran, success.2 (by decide), read, warned.trans (by decide +kernel)⟩
  · obtain ⟨asked, ended⟩ := run_unpack_of_content Base64.standardCodec (w := ⟨3, by decide⟩) (n := 9)
      (by decide) given.2 opens
    obtain ⟨report, t', ran, -, -, refused⟩ := ended _ asked
    obtain ⟨exit_one, rfl, failed⟩ := refused (by decide)
    exact ⟨report, ran, exit_one, failed.trans (by decide +kernel)⟩

end PackedInts
