import PackedInts.Proofs.Text.Base64Codec

/-!
# Bits that padding leaves over

A padding sign takes a byte away from the last group of a text, and with it the last bits of the
character in front belong to no byte. Reading does not look at them. So bytes that are read and
written again give the text with these bits cleared, and this is the text itself exactly if they were
clear before: several texts can stand for the same bytes, but only one of them is what is written.

* `eq_of_spelled_eq` -- characters of the alphabet are known by the bits they spell;
* `wellFormed_encode`, `spelled_encode` -- what is written, as text of the grammar;
* `Reads`, `decode_eq_ok_iff` -- a text of the grammar, and the bytes that it is read as;
* `Reads.written`, `Reads.encode_eq_iff` -- the bytes written again, and when this is the text;
* **`encode_of_decode`** -- what is read and written again, and which texts are read alike.
-/

namespace PackedInts.Base64

/-! ## 1. Characters by their bits -/

theorem spelled_cons (c : UInt8) (run : Bytes) :
    spelled (c :: run) = Bits.ofNat 6 (alphabet.idxOf c) ++ spelled run :=
  List.flatMap_cons

theorem length_spelled (run : Bytes) : (spelled run).length = 6 * run.length := by
  induction run with
  | nil => rfl
  | cons c run ih =>
    rw [spelled_cons, List.length_append, Bits.length_ofNat, ih, List.length_cons]
    omega

/-- A character of the alphabet is known by the six bits of its place. -/
theorem eq_of_place_eq {c c' : UInt8} (known : c ∈ alphabet) (known' : c' ∈ alphabet)
    (same : Bits.ofNat 6 (alphabet.idxOf c) = Bits.ofNat 6 (alphabet.idxOf c')) : c = c' := by
  have places : alphabet.idxOf c % 64 = alphabet.idxOf c' % 64 := by
    have spelled_out := congrArg Bits.toNat same
    rwa [Bits.toNat_ofNat, Bits.toNat_ofNat] at spelled_out
  rw [Nat.mod_eq_of_lt (idxOf_lt known), Nat.mod_eq_of_lt (idxOf_lt known')] at places
  rw [← glyph_idxOf c known, places, glyph_idxOf c' known']

/-- **Characters of the alphabet are known by the bits they spell.** -/
theorem eq_of_spelled_eq : ∀ {run run' : Bytes}, (∀ c ∈ run, c ∈ alphabet) →
    (∀ c ∈ run', c ∈ alphabet) → spelled run = spelled run' → run = run'
  | [], [], _, _, _ => rfl
  | [], c :: run', _, _, same => by
    have lengths := congrArg List.length same
    rw [length_spelled, length_spelled] at lengths
    cases lengths
  | c :: run, [], _, _, same => by
    have lengths := congrArg List.length same
    rw [length_spelled, length_spelled] at lengths
    cases lengths
  | c :: run, c' :: run', known, known', same => by
    obtain ⟨first, others⟩ := List.forall_mem_cons.1 known
    obtain ⟨first', others'⟩ := List.forall_mem_cons.1 known'
    rw [spelled_cons, spelled_cons] at same
    obtain ⟨front, behind⟩ := List.append_inj same (by rw [Bits.length_ofNat, Bits.length_ofNat])
    rw [eq_of_place_eq first first' front, eq_of_spelled_eq others others' behind]

/-! ## 2. What is written -/

/-- **What is written follows the grammar.** -/
theorem wellFormed_encode (bytes : Bytes) :
    WellFormed ((codes bytes).map glyph) ((3 - bytes.length % 3) % 3) (encode bytes) where
  text := encode_eq_glyphs bytes
  few := by omega
  known c member := by
    obtain ⟨code, known, rfl⟩ := List.mem_map.1 member
    exact (glyph_in_alphabet code (lt_of_mem_codes known)).1

/-- **It spells the bits of the bytes** and zeros behind them. -/
theorem spelled_encode (bytes : Bytes) : spelled ((codes bytes).map glyph)
    = Bits.ofBytes bytes ++ List.replicate (missingBits bytes.length) false := by
  rw [spelled_glyphs fun _ member => lt_of_mem_codes member, flatMap_codes]

/-! ## 3. What is read -/

/-- A text of the grammar in whole groups, and the bytes that it is read as: all that its characters
    spell but for the two bits that every padding sign leaves over. -/
structure Reads (run : Bytes) (pads : Nat) (s bytes : Bytes) : Prop extends WellFormed run pads s where
  whole : s.length % 4 = 0
  leading : Bits.ofBytes bytes <+: spelled run
  length : 8 * bytes.length + 2 * pads = 6 * run.length

section Reads

variable {run s bytes : Bytes} {pads : Nat}

/-- The bytes of the codes of a text of the grammar. -/
theorem WellFormed.reads (form : WellFormed run pads s) (whole : s.length % 4 = 0) :
    Reads run pads s (bytesOnto #[] (run.map alphabet.idxOf)) := by
  have small := lt_of_mem_places form.known
  have leading := ofBytes_bytesOnto small
  rw [← spelled_glyphs small, map_glyph_idxOf form.known] at leading
  have few := form.few
  have size := form.length_eq
  refine ⟨form, whole, leading, ?_⟩
  rw [length_bytesOnto, List.length_map]
  omega

/-- The bytes are spelled in front. -/
theorem Reads.bits_eq (h : Reads run pads s bytes) :
    Bits.ofBytes bytes = (spelled run).take (8 * bytes.length) := by
  have front := List.prefix_iff_eq_take.1 h.leading
  rwa [Bits.length_ofBytes] at front

/-- A text is read as no other bytes. -/
theorem Reads.bytes_eq {bytes' : Bytes} (h : Reads run pads s bytes) (h' : Reads run pads s bytes') :
    bytes' = bytes := by
  have length : bytes'.length = bytes.length := by
    have here := h.length
    have there := h'.length
    omega
  have bits : Bits.ofBytes bytes' = Bits.ofBytes bytes := by
    rw [h.bits_eq, h'.bits_eq, length]
  rw [← Bits.toBytes_ofBytes bytes', bits, Bits.toBytes_ofBytes]

/-- **This is what reading gives.** -/
theorem decode_eq_ok_iff {text : Bytes} :
    decode text = .ok bytes ↔ ∃ run pads, Reads run pads (trim text) bytes := by
  constructor
  · intro done
    obtain ⟨whole, run, pads, form⟩ := decode_ok_iff.1 ⟨bytes, done⟩
    obtain rfl := Except.ok.inj ((form.decode_eq whole).symm.trans done)
    exact ⟨run, pads, form.reads whole⟩
  · rintro ⟨run, pads, reads⟩
    rw [reads.decode_eq reads.whole, reads.bytes_eq (reads.reads reads.whole)]

/-- The bits that are spelled are those of the bytes and the bits left over. -/
theorem Reads.spelled_eq (h : Reads run pads s bytes) :
    spelled run = Bits.ofBytes bytes ++ (spelled run).drop (8 * bytes.length) := by
  rw [h.bits_eq, List.take_append_drop]

/-- The number of bytes tells the number of padding signs. -/
theorem Reads.pads_eq (h : Reads run pads s bytes) : (3 - bytes.length % 3) % 3 = pads := by
  have few := h.few
  have whole := h.whole
  have length := h.length
  rw [h.length_eq] at whole
  omega

/-- So many bits are left over as are missing to a group of six behind the bytes. -/
theorem Reads.missingBits_eq (h : Reads run pads s bytes) :
    missingBits bytes.length = 2 * pads := by
  have few := h.few
  have length := h.length
  unfold missingBits
  omega

/-- **What is read and written again** has the same form, with zeros for the bits left over. -/
theorem Reads.written (h : Reads run pads s bytes) :
    ∃ run', WellFormed run' pads (encode bytes) ∧ run'.length = run.length ∧
      spelled run' = Bits.ofBytes bytes ++ List.replicate (2 * pads) false := by
  have form := wellFormed_encode bytes
  have bits := spelled_encode bytes
  rw [h.pads_eq] at form
  rw [h.missingBits_eq] at bits
  have length := congrArg List.length bits
  rw [length_spelled, List.length_append, Bits.length_ofBytes, List.length_replicate, h.length]
    at length
  exact ⟨_, form, by omega, bits⟩

/-- **It is the text itself exactly if the bits left over are zero.** -/
theorem Reads.encode_eq_iff (h : Reads run pads s bytes) :
    encode bytes = s ↔ ∀ bit ∈ (spelled run).drop (8 * bytes.length), bit = false := by
  obtain ⟨run', form, -, bits⟩ := h.written
  constructor
  · intro same
    have runs : run' = run := by
      rw [form.text, h.text] at same
      exact List.append_cancel_right same
    rw [runs, h.spelled_eq] at bits
    intro bit member
    rw [List.append_cancel_left bits] at member
    exact List.eq_of_mem_replicate member
  · intro zeros
    have cleared : (spelled run).drop (8 * bytes.length) = List.replicate (2 * pads) false := by
      refine List.eq_replicate_iff.2 ⟨?_, zeros⟩
      have length := h.length
      rw [List.length_drop, length_spelled]
      omega
    rw [← cleared, ← h.spelled_eq] at bits
    rw [form.text, h.text, eq_of_spelled_eq form.known h.known bits]

/-- It is as long as the text. -/
theorem Reads.length_encode (h : Reads run pads s bytes) :
    (encode bytes).length = s.length := by
  obtain ⟨run', form, length, -⟩ := h.written
  rw [form.length_eq, h.length_eq, length]

end Reads

/-! ## 4. Reading and writing again -/

section Codec

variable {τ σ : Type} {e : BlockEncoder τ} {d : BlockDecoder σ} {text : Bytes → Bytes}
  {left : σ → Bytes}

/-- **What is read and written again.** A text that is read is a run of characters with at most two
    padding signs, and the bytes are the first bits that the run spells. Written again, the bytes give
    a text of the same form and length that spells zeros in the place of the bits left over; so it is
    the text itself, without the blanks at its ends, exactly if these bits are zero. Another text is
    read as the same bytes exactly if it has the same form and spells the same bits in front of those
    left over. -/
theorem encode_of_decode (encodes : EncodesBlocks e text) (decodes : DecodesBlocks d left)
    {s bytes : Bytes} (done : decodeWith d s = .ok bytes) :
    ∃ written run pads, encodeWith e bytes = .ok written ∧ WellFormed run pads (trim s) ∧
      8 * bytes.length + 2 * pads = 6 * run.length ∧
      Bits.ofBytes bytes = (spelled run).take (8 * bytes.length) ∧
      (∃ run', WellFormed run' pads written ∧ run'.length = run.length ∧
        spelled run' = Bits.ofBytes bytes ++ List.replicate (2 * pads) false) ∧
      (written = trim s ↔ ∀ bit ∈ (spelled run).drop (8 * bytes.length), bit = false) ∧
      ∀ other, decodeWith d other = .ok bytes ↔ ∃ run', WellFormed run' pads (trim other) ∧
        run'.length = run.length ∧
        (spelled run').take (8 * bytes.length) = (spelled run).take (8 * bytes.length) := by
  obtain ⟨known, short⟩ := (decodeWith_eq_ok_iff decodes).1 done
  obtain ⟨run, pads, reads⟩ := decode_eq_ok_iff.1 known
  have written := encodeWith_eq encodes (reads.length_encode.trans_le short)
  refine ⟨encode bytes, run, pads, written, reads.toWellFormed, reads.length, reads.bits_eq,
    reads.written, reads.encode_eq_iff, fun other => ?_⟩
  rw [decodeWith_eq_ok_iff decodes, decode_eq_ok_iff]
  constructor
  · rintro ⟨⟨run', pads', reads'⟩, -⟩
    obtain rfl : pads' = pads := reads'.pads_eq.symm.trans reads.pads_eq
    refine ⟨run', reads'.toWellFormed, ?_, reads'.bits_eq.symm.trans reads.bits_eq⟩
    have here := reads.length
    have there := reads'.length
    omega
  · rintro ⟨run', form', length, same⟩
    have as_long : (trim other).length = (trim s).length := by
      rw [form'.length_eq, length, ← reads.length_eq]
    refine ⟨⟨run', pads, form', ?_, ?_, ?_⟩, as_long.trans_le short⟩
    · rw [as_long]
      exact reads.whole
    · rw [reads.bits_eq, ← same]
      exact List.take_prefix _ _
    · rw [length]
      exact reads.length

end Codec

/-- One byte with ones in the bits left over, between blanks. -/
theorem encode_of_decode_one_byte :
    EncodesBlocks standardEncoder encode ∧ DecodesBlocks standardDecoder id ∧
      decodeWith standardDecoder (ascii " Z/==\n") = .ok [0x67] ∧
      ∃ run pads, WellFormed run pads (trim (ascii " Z/==\n")) ∧
        ∃ bit ∈ (spelled run).drop 8, bit = true := by
  have done : decodeWith standardDecoder (ascii " Z/==\n") = .ok [0x67] :=
    (decodeWith_eq_ok_iff standardDecoder_decodesBlocks).2 (by decide +kernel)
  have written : encodeWith standardEncoder [0x67] = .ok (ascii "Zw==") := by decide +kernel
  have other : ascii "Zw==" ≠ trim (ascii " Z/==\n") := by decide +kernel
  obtain ⟨s, run, pads, same, form, -, -, -, cleared, -⟩ :=
    encode_of_decode standardEncoder_encodesBlocks standardDecoder_decodesBlocks done
  obtain rfl : ascii "Zw==" = s := Except.ok.inj (written.symm.trans same)
  refine ⟨standardEncoder_encodesBlocks, standardDecoder_decodesBlocks, done, run, pads, form, ?_⟩
  by_contra none
  exact other (cleared.2 fun bit member => Bool.eq_false_of_not_eq_true fun one =>
    none ⟨bit, member, one⟩)

/-- **Two texts are read as one byte**, and only the second one is what is written for it. -/
theorem decode_eq_of_ne :
    EncodesBlocks standardEncoder encode ∧ DecodesBlocks standardDecoder id ∧
      trim (ascii "Z/==") ≠ trim (ascii "Zw==") ∧
      decodeWith standardDecoder (ascii "Z/==") = .ok [0x67] ∧
      decodeWith standardDecoder (ascii "Zw==") = .ok [0x67] ∧
      encodeWith standardEncoder [0x67] = .ok (ascii "Zw==") ∧
      encodeWith standardEncoder [0x67] ≠ .ok (trim (ascii "Z/==")) := by
  refine ⟨standardEncoder_encodesBlocks, standardDecoder_decodesBlocks, ?_, ?_, ?_, ?_, ?_⟩
  · decide +kernel
  · exact (decodeWith_eq_ok_iff standardDecoder_decodesBlocks).2 (by decide +kernel)
  · exact (decodeWith_eq_ok_iff standardDecoder_decodesBlocks).2 (by decide +kernel)
  · decide +kernel
  · decide +kernel

end PackedInts.Base64
