import PackedInts.Proofs.Text.Base64Grammar
import PackedInts.Text.Base64Codec

/-!
# Base64 text read through a decoder of blocks

A decoder that comes from outside only needs to know blocks of four characters. The text is looked
through before, and its blocks could still give fewer bytes than expected, which would be malformed. None
is: the pass over the text lets through exactly the grammar, and there the blocks give what was expected.

* `expectedSize_trim` -- what is expected is what `decode` gives;
* `DecodesBlocks` -- what is relied on: blocks are decoded one by one and delivered in order;
  `standardDecoder_decodesBlocks`, the standard decoder does this;
* **`decodeWith_eq`** -- by blocks or at once, the same is read, and refused for the same reason;
  `decodeWith_eq_ok_iff`, what is read is not too long for the blocks;
* **`decodeWith_grammar`** -- what is read, as which bytes, and why the rest is not.
-/

namespace PackedInts.Base64

/-! ## 1. The pass over a text -/

theorem isKnown_eq_isSome (c : UInt8) : isKnown c = (code? c).isSome :=
  forall_byte (P := fun c => isKnown c = (code? c).isSome) (by decide +kernel) c

theorem isKnown_iff_mem_alphabet (c : UInt8) : isKnown c = true ↔ c ∈ alphabet := by
  rw [isKnown_eq_isSome, code?_eq]
  by_cases member : c ∈ alphabet
  · rw [if_pos member]
    exact iff_of_true rfl member
  · rw [if_neg member]
    exact iff_of_false Bool.false_ne_true member

/-- The pass goes through a run of the alphabet and finds no padding. -/
theorem paddingFrom_run {run : Bytes} (known : ∀ c ∈ run, c ∈ alphabet) (total index : Nat)
    (rest : Bytes) :
    paddingFrom total index 0 (run ++ rest) = paddingFrom total (index + run.length) 0 rest := by
  induction run generalizing index with
  | nil => rfl
  | cons c run ih =>
    obtain ⟨member, others⟩ := List.forall_mem_cons.1 known
    have other : c ≠ padding := fun sign => padding_not_mem_alphabet (sign ▸ member)
    have fine : ¬ (0 < 0 ∨ isKnown c = false) := by
      rw [(isKnown_iff_mem_alphabet c).2 member]
      decide
    rw [List.cons_append, paddingFrom, if_neg other, if_neg fine, ih others, List.length_cons,
      Nat.add_assoc, Nat.add_comm 1]

/-- The form of what follows the run decides the pass there, which counts what is left if it is
    padding. -/
theorem Tail.paddingFrom_eq {rest : Bytes} {verdict : Except Error Unit} (tail : Tail rest verdict)
    {total index : Nat} (place : index + rest.length = total) :
    paddingFrom total index 0 rest = verdict.map fun _ => rest.length := by
  cases tail with
  | @signs pads few =>
    match pads, few with
    | 0, _ => rfl
    | 1, _ =>
      have last : ¬ index + 2 < total := by
        simp only [List.length_replicate] at place
        omega
      simp [List.replicate, paddingFrom, last, Except.map]
    | 2, _ =>
      have behind : ¬ index + 2 < total ∧ ¬ index + 1 + 2 < total := by
        simp only [List.length_replicate] at place
        omega
      simp [List.replicate, paddingFrom, behind, Except.map]
  | @early more much =>
    have before : index + 2 < total := by
      rw [List.length_cons] at place
      omega
    rw [paddingFrom, if_pos rfl, if_pos before]
    rfl
  | @foreign c more other unknown =>
    have stranger : isKnown c = false := by
      rw [← Bool.not_eq_true, isKnown_iff_mem_alphabet]
      exact unknown
    rw [paddingFrom, if_neg other, if_pos (.inr stranger)]
    rfl
  | @behind c other =>
    -- The sign is the last character but one, so it may stand there; what follows it may not.
    have last : ¬ index + 2 < total := by
      simp only [List.length_cons, List.length_nil] at place
      omega
    rw [paddingFrom, if_pos rfl, if_neg last, paddingFrom, if_neg other, if_pos (.inl Nat.one_pos)]
    rfl

/-- **What is expected is what is read**: the pass refuses a text for the reason for which it is not
    read, and lets it through with the number of its bytes. -/
theorem expectedSize_trim (text : Bytes) :
    expectedSize (trim text) = (decode text).map List.length := by
  unfold expectedSize decode
  by_cases whole : (trim text).length % 4 = 0
  · obtain ⟨run, rest, verdict, cut, known, tail⟩ := exists_tail (trim text)
    rw [if_neg (not_not.2 whole), if_neg (not_not.2 whole)]
    rw [cut] at whole ⊢
    rw [List.length_append] at whole ⊢
    rw [paddingFrom_run known, tail.paddingFrom_eq (by omega), tail.codesOnto_append known]
    match verdict, tail with
    | .error e, _ => rfl
    | .ok (), @Tail.signs pads few =>
      rw [List.length_replicate] at whole ⊢
      have size : (run.length + pads) / 4 * 3 - pads
          = (bytesOnto #[] (run.map alphabet.idxOf)).length := by
        rw [length_bytesOnto, List.length_map]
        omega
      exact congrArg Except.ok size
  · rw [if_pos whole, if_pos whole]
    rfl

/-! ## 2. Decoders of blocks -/

/-- What a decoder of blocks does with text of the grammar, where `left` is what a state has still to
    deliver. Four characters of the alphabet are three bytes, in front of those of the text behind
    them; padding in a last block counts as zero bits and takes a byte away for each sign. What is
    left is delivered in order, no more than asked for at a time, and something until nothing is
    left. -/
structure DecodesBlocks {σ : Type} (d : BlockDecoder σ) (left : σ → Bytes) : Prop where
  nothing : left (d.start []) = []
  block : ∀ p < 64, ∀ q < 64, ∀ r < 64, ∀ s < 64, ∀ rest : Bytes, rest.length % 4 = 0 →
    (∃ run pads, WellFormed run pads rest) →
    left (d.start (glyph p :: glyph q :: glyph r :: glyph s :: rest))
      = bytesOfFour p q r s ++ left (d.start rest)
  oneSign : ∀ p < 64, ∀ q < 64, ∀ r < 64,
    left (d.start [glyph p, glyph q, glyph r, padding]) = (bytesOfFour p q r 0).take 2
  twoSigns : ∀ p < 64, ∀ q < 64,
    left (d.start [glyph p, glyph q, padding, padding]) = (bytesOfFour p q 0 0).take 1
  delivered : ∀ wanted state,
    left state = (d.read wanted state).1 ++ left (d.read wanted state).2
  atMost : ∀ wanted state, (d.read wanted state).1.length ≤ wanted
  something : ∀ wanted state, 0 < wanted → left state ≠ [] → (d.read wanted state).1 ≠ []

section Blocks

variable {σ : Type} {d : BlockDecoder σ} {left : σ → Bytes}

/-- **The pieces put together** are what was left, up to the number of bytes wanted. -/
theorem DecodesBlocks.fill_eq (standard : DecodesBlocks d left) (wanted : Nat) (state : σ) :
    d.fill wanted state = (left state).take wanted := by
  fun_induction d.fill wanted state with
  | case1 wanted state more ih =>
    rw [ih, standard.delivered wanted state, List.take_append,
      List.take_of_length_le (standard.atMost wanted state)]
  | case2 wanted state done =>
    rcases Nat.eq_zero_or_pos wanted with rfl | pos
    · rfl
    · have empty : (d.read wanted state).1 = [] := by
        refine List.length_eq_zero_iff.1 ?_
        omega
      have spent : left state = [] := by
        by_contra rest
        exact standard.something wanted state pos rest empty
      rw [spent, List.take_nil]

/-- **Block by block, text of the grammar gives the bytes of its codes.** -/
theorem DecodesBlocks.left_glyphs (standard : DecodesBlocks d left) {pads : Nat} (few : pads ≤ 2) :
    ∀ {known : List Nat}, (∀ code ∈ known, code < 64) → (known.length + pads) % 4 = 0 →
      left (d.start (known.map glyph ++ List.replicate pads padding)) = bytesOnto #[] known
  | [], _, whole => by
    obtain rfl : pads = 0 := by
      rw [List.length_nil] at whole
      omega
    exact standard.nothing
  | [p], _, whole => by
    rw [List.length_singleton] at whole
    omega
  | [p, q], small, whole => by
    obtain rfl : pads = 2 := by
      simp only [List.length_cons, List.length_nil] at whole
      omega
    simp only [List.forall_mem_cons] at small
    exact standard.twoSigns p small.1 q small.2.1
  | [p, q, r], small, whole => by
    obtain rfl : pads = 1 := by
      simp only [List.length_cons, List.length_nil] at whole
      omega
    simp only [List.forall_mem_cons] at small
    exact standard.oneSign p small.1 q small.2.1 r small.2.2.1
  | p :: q :: r :: s :: rest, small, whole => by
    simp only [List.forall_mem_cons] at small
    obtain ⟨hp, hq, hr, hs, others⟩ := small
    have behind : (rest.length + pads) % 4 = 0 := by
      simp only [List.length_cons] at whole
      omega
    have groups : (rest.map glyph ++ List.replicate pads padding).length % 4 = 0 := by
      rw [List.length_append, List.length_map, List.length_replicate]
      exact behind
    have form : WellFormed (rest.map glyph) pads (rest.map glyph ++ List.replicate pads padding) := by
      refine ⟨rfl, few, fun c member => ?_⟩
      obtain ⟨code, inside, rfl⟩ := List.mem_map.1 member
      exact (glyph_in_alphabet code (others code inside)).1
    rw [bytesOnto_cons, ← standard.left_glyphs few others behind]
    exact standard.block p hp q hq r hr s hs _ groups ⟨_, _, form⟩

end Blocks

/-- **The standard decoder decodes blocks.** -/
theorem standardDecoder_decodesBlocks : DecodesBlocks standardDecoder id where
  nothing := rfl
  block p hp q hq r hr s hs rest _ _ := by
    have solid : [glyph r, glyph s].count padding = 0 := by
      simp [List.count_eq_zero, (glyph_solid r hr).2.symm, (glyph_solid s hs).2.symm]
    simp [standardDecoder, bytesOfBlocks_cons, bytesOfBlock, code?_glyph, hp, hq, hr, hs, solid, bytesOfFour]
  oneSign p hp q hq r hr := by
    have one : [glyph r, padding].count padding = 1 := by
      simp [(glyph_solid r hr).2]
    simp [standardDecoder, bytesOfBlocks_cons, bytesOfBlock, code?_glyph, hp, hq, hr, one, code?_padding]
  twoSigns p hp q hq := by
    have two : [padding, padding].count padding = 2 := rfl
    simp [standardDecoder, bytesOfBlocks_cons, bytesOfBlock, code?_glyph, hp, hq, two, code?_padding]
  delivered wanted state := (List.take_append_drop wanted state).symm
  atMost wanted state := List.length_take_le wanted state
  something wanted state pos rest nothing := by
    rcases List.take_eq_nil_iff.1 nothing with zero | empty
    · exact pos.ne' zero
    · exact rest empty

/-! ## 3. Reading a text by blocks -/

section Blocks

variable {σ : Type} {d : BlockDecoder σ} {left : σ → Bytes}

/-- **By blocks or at once, the same is read**, and refused for the same reason. -/
theorem decodeWith_eq (standard : DecodesBlocks d left) {text : Bytes}
    (short : (trim text).length ≤ mostCharacters) :
    decodeWith d text = (decode text).mapError .invalid := by
  unfold decodeWith
  rw [expectedSize_trim]
  cases read : decode text with
  | error e => rfl
  | ok bytes =>
    obtain ⟨whole, run, pads, form⟩ := decode_ok_iff.1 ⟨bytes, read⟩
    -- Text of the grammar is the glyphs of its codes, so the blocks give the bytes of these.
    have delivered : left (d.start (trim text)) = bytes := by
      have blocks := standard.left_glyphs form.few (lt_of_mem_places form.known)
        (by rw [List.length_map, ← form.length_eq]; exact whole)
      rw [map_glyph_idxOf form.known, ← form.text] at blocks
      exact blocks.trans (Except.ok.inj ((form.decode_eq whole).symm.trans read))
    have filled : d.fill bytes.length (d.start (trim text)) = bytes := by
      rw [standard.fill_eq, delivered, List.take_length]
    show (if bytes.length = 0 then _ else _) = Except.ok bytes
    rw [filled, if_neg (not_not.2 rfl), if_neg (Nat.not_lt.2 short)]
    split
    · rename_i empty
      rw [List.length_eq_zero_iff.1 empty]
    · rfl

/-- **What a decoder of blocks reads** is what is read at once and not too long for it. -/
theorem decodeWith_eq_ok_iff (standard : DecodesBlocks d left) {text bytes : Bytes} :
    decodeWith d text = .ok bytes
      ↔ decode text = .ok bytes ∧ (trim text).length ≤ mostCharacters := by
  by_cases short : (trim text).length ≤ mostCharacters
  · rw [decodeWith_eq standard short]
    cases decode text <;> simp [Except.mapError, short]
  · refine iff_of_false (fun read => ?_) fun parts => short parts.2
    unfold decodeWith at read
    rw [expectedSize_trim] at read
    cases known : decode text with
    | error e =>
      rw [known] at read
      cases read
    | ok spelled_out =>
      -- a text of no bytes is empty, and so is not too long
      have some_bytes : spelled_out.length ≠ 0 := by
        obtain ⟨run, pads, form, length, -⟩ := decode_bits known
        have few := form.few
        have limit : mostCharacters = 2 ^ 31 - 1 := rfl
        omega
      rw [known] at read
      change (if spelled_out.length = 0 then _ else _) = _ at read
      rw [if_neg some_bytes, if_pos (Nat.lt_of_not_le short)] at read
      cases read

/-- **What is read by blocks.** Between the blanks at its ends, a text of the grammar in whole groups
    of four is read, and nothing else is. What is read has three bytes for every four characters but
    for the padding signs, with the leading bits of what the characters in front of these spell. Any
    other text is refused for its length, or in whole groups for its first offence, and never because
    the blocks gave too few bytes. -/
theorem decodeWith_grammar (standard : DecodesBlocks d left) {text : Bytes}
    (short : text.length ≤ mostCharacters) : ∃ s, Stripped text s ∧
      decodeWith d text = (decode text).mapError .invalid ∧
      ((∃ bytes, decodeWith d text = .ok bytes) ↔
        s.length % 4 = 0 ∧ ∃ run pads, WellFormed run pads s) ∧
      (∀ bytes, decodeWith d text = .ok bytes → ∃ run pads, WellFormed run pads s ∧
        bytes.length = 3 * s.length / 4 - pads ∧ Bits.ofBytes bytes <+: spelled run) ∧
      ∀ failure, decodeWith d text = .error failure →
        failure ≠ .malformed ∧ failure.failureClass = .invalidArgument ∧
          (s.length % 4 ≠ 0 ∧
              failure.message = ascii "Base64 input length must be a multiple of 4" ∨
            s.length % 4 = 0 ∧ ∃ i, (∀ j < i, offence s j = none) ∧
              (offence s i = some .earlyPadding ∧
                  failure.message = ascii "Base64 padding found before the end of input" ∨
                offence s i = some .character ∧
                  failure.message = ascii "Invalid character in base64 input")) := by
  have stripped := stripped_trim text
  have same := decodeWith_eq standard (stripped.length_le.trans short)
  have done : ∀ bytes, decodeWith d text = .ok bytes ↔ decode text = .ok bytes := by
    intro bytes
    rw [decodeWith_eq_ok_iff standard]
    exact and_iff_left (stripped.length_le.trans short)
  refine ⟨trim text, stripped, same, ?_, ?_, ?_⟩
  · simp only [done]
    exact decode_ok_iff
  · intro bytes read
    exact decode_bits ((done bytes).1 read)
  · intro failure refused
    rw [same] at refused
    cases read : decode text with
    | ok bytes =>
      rw [read] at refused
      cases refused
    | error e =>
      rw [read] at refused
      obtain rfl : Failure.invalid e = failure := Except.error.inj refused
      refine ⟨nofun, rfl, ?_⟩
      rcases offence_of_decode read with ⟨ragged, rfl⟩ | ⟨whole, i, here, first⟩
      · exact .inl ⟨ragged, rfl⟩
      · refine .inr ⟨whole, i, first, ?_⟩
        rcases error_of_offence here with rfl | rfl
        · exact .inl ⟨here, rfl⟩
        · exact .inr ⟨here, rfl⟩

/-- Two padding signs end four bytes; one with another character behind it is refused. -/
theorem decodeWith_grammar_two_texts :
    (ascii " AP9+Zw==\n").length ≤ mostCharacters ∧ (ascii "ab=c").length ≤ mostCharacters ∧
      DecodesBlocks standardDecoder id ∧
      decodeWith standardDecoder (ascii " AP9+Zw==\n") = .ok [0, 0xFF, 0x7E, 0x67] ∧
      decodeWith standardDecoder (ascii "ab=c") = .error (.invalid .character) := by
  have short : (ascii " AP9+Zw==\n").length ≤ mostCharacters := by decide
  have short' : (ascii "ab=c").length ≤ mostCharacters := by decide
  have read : decode (ascii " AP9+Zw==\n") = .ok [0, 0xFF, 0x7E, 0x67] := by decide +kernel
  have refused : decode (ascii "ab=c") = .error .character := by decide +kernel
  obtain ⟨_, _, same, _⟩ := decodeWith_grammar standardDecoder_decodesBlocks short
  obtain ⟨_, _, same', _⟩ := decodeWith_grammar standardDecoder_decodesBlocks short'
  rw [read] at same
  rw [refused] at same'
  exact ⟨short, short', standardDecoder_decodesBlocks, same, same'⟩

end Blocks

end PackedInts.Base64
