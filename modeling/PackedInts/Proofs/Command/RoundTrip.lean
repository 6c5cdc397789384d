import Mathlib
import PackedInts.Proofs.Command.Packing
import PackedInts.Proofs.Command.Unpacking
import PackedInts.Proofs.Text.Base64Codec
import PackedInts.Proofs.Text.ValueList

/-!
# A list of values through a packed file and back

A list that is packed into a file and unpacked from it comes out in its plain form, one value to a
line, whether the packed bytes stand in the file as they are or as base64 text. The three paths may
be the same: an input is read before an output is opened.

* `exists_packedContent` -- packed bytes have a form in which they are found again;
* `unpackProduct_packed` -- and make the text of the list;
* `length_encode_packed_le` -- the text of packed bytes is not too long for a codec;
* **`run_unpack_after_pack`** -- the two runs, one after the other.
-/

namespace PackedInts

section Lists

variable {τ σ : Type} {codec : Base64.Codec τ σ} {w : BitWidth} {vs : List UInt32}

/-! ## 1. A file of packed bytes -/

/-- **The packed bytes are found again in the file**, raw or as a line of base64. -/
theorem exists_packedContent (standard : codec.Standard) (base64 : Bool) {packed : Bytes}
    (short : (Base64.encode packed).length ≤ Base64.mostCharacters) :
    ∃ content, packedContent codec base64 packed = .ok content ∧
      packedOfContent codec base64 content = .ok packed := by
  cases base64 with
  | false => exact ⟨packed, rfl, rfl⟩
  | true =>
    obtain ⟨text, encodes⟩ := standard.encoder
    obtain ⟨left, decodes⟩ := standard.decoder
    have line_end : ascii "\n" = [10] := by decide
    have blank : ∀ b ∈ ascii "\n", isSpace b = true := by
      intro b member
      rw [line_end, List.mem_singleton] at member
      rw [member]
      rfl
    have written := Base64.encodeWith_eq encodes short
    have read := Base64.decodeWith_between decodes (l := [])
      (fun _ member => absurd member List.not_mem_nil) blank short
    rw [List.nil_append] at read
    exact ⟨_, packedContent_of_encodeWith written, packedOfContent_of_decodeWith read⟩

/-- A list has no more bytes than values, and at most half as many values as its text has bytes. So
    the base64 text of the packed bytes is not too long for a codec, as long as the text is not. -/
theorem length_encode_packed_le (w : BitWidth) {text : Bytes}
    (small : text.length ≤ Base64.mostCharacters) (parsed : ValueList.parse text = .ok vs) :
    (Base64.encode (Bits.packed w.bits vs)).length ≤ Base64.mostCharacters := by
  have values := ValueList.two_mul_length_of_parse parsed
  have bits : vs.length * w.bits ≤ vs.length * 8 := Nat.mul_le_mul_left _ w.bits_le
  rw [Base64.length_encode, Bits.length_packed, byteCount]
  unfold Base64.mostCharacters at small ⊢
  omega

/-! ## 2. Unpacking -/

/-- The values in the packed bytes of a list are the list, if its values all fit. -/
theorem values_packed (fit : ∀ v ∈ vs, v.toNat < 2 ^ w.bits) :
    Bits.values w.bits vs.length (Bits.packed w.bits vs) = vs := by
  have same : ∀ v ∈ vs, Bits.low w.bits v = v := fun v member => Bits.low_of_lt (fit v member)
  rw [Bits.values, Bits.ofBytes_packed, Bits.pad, Bits.windows_ofValues (Nat.le_refl _),
    List.take_length, List.map_congr_left same, List.map_id']

/-- **The packed bytes make the text of the list**, and leave nothing to warn of. -/
theorem unpackBytes_packed (fit : ∀ v ∈ vs, v.toNat < 2 ^ w.bits) (few : vs.length ≤ 2 ^ 61 - 1) :
    unpackBytes w vs.length.toUInt64 (Bits.packed w.bits vs) = ⟨[], .ok (ValueList.format vs,
      unpackSummary vs.length (Bits.packed w.bits vs).length)⟩ := by
  have whole : byteCount (vs.length * w.bits) = (Bits.packed w.bits vs).length :=
    (Bits.length_packed w.bits vs).symm
  rw [unpackBytes_of_enough few (Nat.le_of_eq whole), values_packed fit, whole, Nat.sub_self]
  rfl

/-- **What is made of a file in which they are found.** -/
theorem unpackProduct_packed {base64 : Bool} {content : Bytes}
    (fit : ∀ v ∈ vs, v.toNat < 2 ^ w.bits) (few : vs.length ≤ 2 ^ 61 - 1)
    (found : packedOfContent codec base64 content = .ok (Bits.packed w.bits vs)) :
    unpackProduct codec w vs.length.toUInt64 base64 content
      = ⟨[], .ok (ValueList.format vs,
        unpackSummary vs.length (Bits.packed w.bits vs).length)⟩ := by
  unfold unpackProduct
  rw [found]
  exact unpackBytes_packed fit few

end Lists

/-! ## 3. The two runs -/

section Runs

variable {τ σ : Type} {codec : Base64.Codec τ σ} {w : BitWidth} {vs : List UInt32}
  {text content input middle output : Bytes} {t : FileTree}

/-- **A packing of values that fit** writes them packed. -/
theorem run_pack_of_fits {base64 : Bool} (given : t.read input = .ok text)
    (parsed : ValueList.parse text = .ok vs) (fit : ∀ v ∈ vs, v.toNat < 2 ^ w.bits)
    (stored : packedContent codec base64 (Bits.packed w.bits vs) = .ok content)
    (opens : t.Opens output) :
    ∃ summary t',
      runWith codec (packArguments w base64 input output) t = (.success summary [], t') ∧
      t.Writes t' output content := by
  have asked : Request.parse (packArguments w base64 input output) = _ :=
    parse_packArguments (FileTree.ne_nil_of_read given) opens.ne_nil
  exact ⟨_, run_pack_of_fitting codec given parsed fit stored opens asked⟩

/-- **An unpacking of packed values** writes their text. -/
theorem run_unpack_of_packed {base64 : Bool} (fit : ∀ v ∈ vs, v.toNat < 2 ^ w.bits)
    (few : vs.length ≤ 2 ^ 61 - 1) (given : t.read input = .ok content)
    (found : packedOfContent codec base64 content = .ok (Bits.packed w.bits vs))
    (opens : t.Opens output) :
    ∃ summary t', runWith codec (unpackArguments w vs.length base64 input output) t
        = (.success summary [], t') ∧
      t.Writes t' output (ValueList.format vs) := by
  obtain ⟨t', written⟩ := FileTree.write_of_opens opens (ValueList.format vs)
  have asked : Request.parse (unpackArguments w vs.length base64 input output) = _ :=
    parse_unpackArguments (by omega) (FileTree.ne_nil_of_read given) opens.ne_nil
  refine ⟨unpackSummary vs.length (Bits.packed w.bits vs).length, t', ?_,
    FileTree.write_of_ok written⟩
  rw [runWith_of_parse_ok asked]
  exact Job.perform_of_written (FileTree.readInput_eq_ok_iff.2 given)
    (unpackProduct_packed fit few found) written

/-- **What was packed into a file is unpacked from it**: both runs succeed without a word on the
    error output, and the last file holds the list with each value on a line of its own. No two of
    the three paths need to differ, and base64 text is left to any codec that keeps to the
    standard. -/
theorem run_unpack_after_pack (standard : codec.Standard) (base64 : Bool) {t₁ t₂ : FileTree}
    {packing unpacking : Report}
    (given : t.read input = .ok text) (small : text.length ≤ 2 ^ 31 - 1)
    (parsed : ValueList.parse text = .ok vs) (fit : ∀ v ∈ vs, v.toNat < 2 ^ w.bits)
    (opens_middle : t.Opens middle)
    (first : runWith codec (packArguments w base64 input middle) t = (packing, t₁))
    (opens_output : t₁.Opens output)
    (second : runWith codec (unpackArguments w vs.length base64 middle output) t₁
      = (unpacking, t₂)) :
    packing.exit = 0 ∧ packing.stderr = [] ∧ unpacking.exit = 0 ∧ unpacking.stderr = [] ∧
      t₂.read output = .ok (ValueList.format vs) := by
  have few : vs.length ≤ 2 ^ 61 - 1 := by
    have := ValueList.two_mul_length_of_parse parsed
    omega
  obtain ⟨content, stored, found⟩ :=
    exists_packedContent standard base64 (length_encode_packed_le w small parsed)
  obtain ⟨_, _, packed, writes⟩ := run_pack_of_fits given parsed fit stored opens_middle
  rw [first] at packed
  cases packed
  obtain ⟨_, _, unpacked, writes'⟩ :=
    run_unpack_of_packed fit few writes.read found opens_output
  rw [second] at unpacked
  cases unpacked
  exact ⟨rfl, rfl, rfl, rfl, writes'.read⟩

end Runs

/-- Three values of three bits as base64 text in a directory at the root that is made for it, and back
    over the file that they came from. -/
theorem run_unpack_after_pack_over_input :
    Base64.standardCodec.Standard ∧ ∃ packing unpacking t₁ t₂,
      run (packArguments ⟨3, by decide⟩ true (ascii "v") (ascii "/tmp/../d//p"))
        (.ofEntries [(ascii "v", some (ascii "5 03,2"))]) = (packing, t₁) ∧
      run (unpackArguments ⟨3, by decide⟩ 3 true (ascii "/tmp/../d//p") (ascii "v")) t₁
        = (unpacking, t₂) ∧
      packing.exit = 0 ∧ packing.stderr = [] ∧ unpacking.exit = 0 ∧ unpacking.stderr = [] ∧
      t₂.read (ascii "v") = .ok (ascii "5\n3\n2\n") := by
  have standard := Base64.standardCodec_standard
  have parsed : ValueList.parse (ascii "5 03,2") = .ok [5, 3, 2] := by decide +kernel
  have text : ValueList.format [5, 3, 2] = ascii "5\n3\n2\n" := by decide +kernel
  obtain ⟨packing, t₁, first, opens⟩ : ∃ packing t₁,
      run (packArguments ⟨3, by decide⟩ true (ascii "v") (ascii "/tmp/../d//p"))
        (.ofEntries [(ascii "v", some (ascii "5 03,2"))]) = (packing, t₁) ∧ t₁.Opens (ascii "v") :=
    ⟨_, _, Prod.mk.eta.symm, by decide +kernel⟩
  rcases second : run (unpackArguments ⟨3, by decide⟩ 3 true (ascii "/tmp/../d//p") (ascii "v")) t₁
    with ⟨unpacking, t₂⟩
  refine ⟨standard, packing, unpacking, t₁, t₂, first, second, ?_⟩
  rw [← text]
  exact run_unpack_after_pack standard true (by decide +kernel) (by decide +kernel) parsed (by simp)
    (by decide +kernel) first opens second

end PackedInts
