import PackedInts.Proofs.Text.Base64Blocks

/-!
# Base64 text written and read through a codec

An encoder that comes from outside only needs to know groups of three bytes: as long as the text is not
too long for it, it takes what it is given, is flushed when asked to, and has the text of the groups. Then
there is nothing left to go wrong, and what is written is the text of the bytes. A decoder of blocks reads
it back, from between any blanks.

* `EncodesBlocks` -- what is relied on: groups are encoded one by one;
  `standardEncoder_encodesBlocks`, the standard encoder does this;
* `EncodesBlocks.text_eq` -- there is only one such text, the one of `encode`;
* `encodeWith_eq` -- by groups or at once, the same is written;
* `Codec.Standard` -- an encoder and a decoder that keep to this;
* **`decode_encode_layout`** -- the text of bytes, character by character, and that it reads back.
-/

namespace PackedInts.Base64

/-! ## 1. Encoders of groups -/

/-- What an encoder does with bytes, where `text` is the text it makes of them. Three bytes are four
    characters of the alphabet, in front of those of the bytes behind them; bits that are missing to a
    last code are zero, and a padding sign stands for each byte that is missing to a group. An encoder
    that has just been started takes all bytes, if there are any and their text is of a size that it can
    be given, is flushed, and then has this text. -/
structure EncodesBlocks {τ : Type} (e : BlockEncoder τ) (text : Bytes → Bytes) : Prop where
  nothing : text [] = []
  block : ∀ (a b c : UInt8) (rest : Bytes),
    text (a :: b :: c :: rest) = (codesOfThree a b c).map glyph ++ text rest
  oneSign : ∀ a b : UInt8, text [a, b] = ((codesOfThree a b 0).take 3).map glyph ++ [padding]
  twoSigns : ∀ a : UInt8, text [a] = ((codesOfThree a 0 0).take 2).map glyph ++ [padding, padding]
  taken : ∀ bytes ≠ [], (text bytes).length ≤ mostCharacters →
    (e.write bytes e.start).1 = bytes.length
  flushed : ∀ bytes ≠ [], (text bytes).length ≤ mostCharacters →
    (e.flush (e.write bytes e.start).2).1 = 1
  delivered : ∀ bytes ≠ [], (text bytes).length ≤ mostCharacters →
    e.text? (e.flush (e.write bytes e.start).2).2 = some (text bytes)

section Encode

variable {τ : Type} {e : BlockEncoder τ} {text : Bytes → Bytes}

/-- **Group by group, there is only one text.** -/
theorem EncodesBlocks.text_eq (standard : EncodesBlocks e text) :
    ∀ bytes : Bytes, text bytes = encode bytes
  | [] => standard.nothing
  | [a] => by
    rw [standard.twoSigns, encode_one]
    simp [codesOfThree, lastOne]
  | [a, b] => by
    rw [standard.oneSign, encode_two]
    simp [codesOfThree, lastTwo]
  | a :: b :: c :: rest => by
    rw [standard.block, encode_cons, standard.text_eq rest]

/-- The text of bytes is never shorter than these, so not both can be too long. -/
theorem length_le_length_encode (bytes : Bytes) : bytes.length ≤ (encode bytes).length := by
  rw [length_encode]
  omega

/-- **By groups or at once, the same is written.** -/
theorem encodeWith_eq (standard : EncodesBlocks e text) {bytes : Bytes}
    (short : (encode bytes).length ≤ mostCharacters) : encodeWith e bytes = .ok (encode bytes) := by
  have few : ¬ mostCharacters < bytes.length :=
    Nat.not_lt.2 ((length_le_length_encode bytes).trans short)
  rw [← standard.text_eq] at short ⊢
  unfold encodeWith
  by_cases empty : bytes = []
  · rw [if_pos empty, empty, standard.nothing]
  · rw [if_neg empty, if_neg few]
    dsimp only
    rw [if_neg (not_not.2 (standard.taken bytes empty short)),
      if_neg (not_not.2 (standard.flushed bytes empty short)), standard.delivered bytes empty short]

end Encode

/-- **The standard encoder encodes groups.** -/
theorem standardEncoder_encodesBlocks : EncodesBlocks standardEncoder encode where
  nothing := encode_nil
  block := encode_cons
  oneSign a b := by simp [codesOfThree, lastTwo]
  twoSigns a := by simp [codesOfThree, lastOne]
  taken _ _ _ := rfl
  flushed _ _ _ := rfl
  delivered bytes _ _ := by simp [standardEncoder]

/-! ## 2. Codecs -/

/-- A codec whose encoder encodes groups and whose decoder decodes blocks. -/
structure Codec.Standard {τ σ : Type} (codec : Codec τ σ) : Prop where
  encoder : ∃ text, EncodesBlocks codec.encoder text
  decoder : ∃ left, DecodesBlocks codec.decoder left

/-- **The standard codec keeps to the standard.** -/
theorem standardCodec_standard : standardCodec.Standard where
  encoder := ⟨_, standardEncoder_encodesBlocks⟩
  decoder := ⟨_, standardDecoder_decodesBlocks⟩

/-! ## 3. Written and read back -/

section Layout

variable {τ σ : Type} {e : BlockEncoder τ} {d : BlockDecoder σ} {text : Bytes → Bytes}
  {left : σ → Bytes}

/-- **What is written is read back**, with any blanks around it. -/
theorem decodeWith_between (decodes : DecodesBlocks d left) {l r : Bytes}
    (hl : ∀ b ∈ l, isSpace b = true) (hr : ∀ b ∈ r, isSpace b = true) {bytes : Bytes}
    (short : (encode bytes).length ≤ mostCharacters) :
    decodeWith d (l ++ encode bytes ++ r) = .ok bytes := by
  have trimmed : trim (l ++ encode bytes ++ r) = encode bytes := by
    rw [trim_between hl hr]
    exact trim_of_solid fun _ member => isSpace_of_mem_encode member
  rw [← trimmed] at short
  rw [decodeWith_eq decodes short, decode_encode_between hl hr]
  rfl

/-- **The text of bytes.** It has four characters for every three bytes or part of them and no line
    break. In front of its padding signs, which are as many as bytes are missing to a group of
    three, stand characters of the alphabet that spell the bits of the bytes, with zeros up to a
    group of six. With any blanks around it, it is read back as the bytes. -/
theorem decode_encode_layout (encodes : EncodesBlocks e text) (decodes : DecodesBlocks d left)
    {l r : Bytes} (hl : ∀ b ∈ l, b ∈ blanks) (hr : ∀ b ∈ r, b ∈ blanks) {bytes : Bytes}
    (short : (text bytes).length ≤ mostCharacters) :
    ∃ s, encodeWith e bytes = .ok s ∧
      decodeWith d (l ++ s ++ r) = .ok bytes ∧
      s.length = 4 * ((bytes.length + 2) / 3) ∧
      '\n'.toUInt8 ∉ s ∧ '\r'.toUInt8 ∉ s ∧
      ∃ run, s = run ++ List.replicate ((3 - bytes.length % 3) % 3) '='.toUInt8 ∧
        (∀ c ∈ run, c ∈ alphabet) ∧
        spelled run = Bits.ofBytes bytes
          ++ List.replicate ((6 - 8 * bytes.length % 6) % 6) false := by
  rw [encodes.text_eq] at short
  refine ⟨encode bytes, encodeWith_eq encodes short, ?_, encode_layout bytes⟩
  exact decodeWith_between decodes (fun b member => isSpace_of_mem_blanks b (hl b member))
    (fun b member => isSpace_of_mem_blanks b (hr b member)) short

end Layout

/-- Four bytes are eight characters, two of them padding signs, and read back from between blanks. -/
theorem decode_encode_layout_four_bytes :
    EncodesBlocks standardEncoder encode ∧ DecodesBlocks standardDecoder id ∧
      (∀ b ∈ ascii " \t", b ∈ blanks) ∧ (∀ b ∈ ascii "\r\n", b ∈ blanks) ∧
      (encode [0, 0xFF, 0x7E, 0x67]).length ≤ mostCharacters ∧
      encodeWith standardEncoder [0, 0xFF, 0x7E, 0x67] = .ok (ascii "AP9+Zw==") ∧
      decodeWith standardDecoder (ascii " \tAP9+Zw==\r\n") = .ok [0, 0xFF, 0x7E, 0x67] := by
  have front : ∀ b ∈ ascii " \t", b ∈ blanks := by decide +kernel
  have behind : ∀ b ∈ ascii "\r\n", b ∈ blanks := by decide +kernel
  have short : (encode [0, 0xFF, 0x7E, 0x67]).length ≤ mostCharacters := by decide +kernel
  have written : encodeWith standardEncoder [0, 0xFF, 0x7E, 0x67] = .ok (ascii "AP9+Zw==") := by
    decide +kernel
  obtain ⟨s, same, read, -⟩ := decode_encode_layout standardEncoder_encodesBlocks
    standardDecoder_decodesBlocks front behind short
  obtain rfl : ascii "AP9+Zw==" = s := Except.ok.inj (written.symm.trans same)
  exact ⟨standardEncoder_encodesBlocks, standardDecoder_decodesBlocks, front, behind, short, written,
    read⟩

end PackedInts.Base64
