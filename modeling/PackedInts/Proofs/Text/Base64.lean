import Mathlib
import PackedInts.Text.Base64

/-!
# Base64 text is read back

The codes of a byte string are its bits in groups of six. The text spells them out with the glyphs
of the alphabet, and reading goes the same way back: glyphs to codes, codes to bytes. Blanks around
the text do not matter.

* `codes` -- the six-bit codes of a byte string;
* `codesOnto_encode` -- reading the text of bytes gives their codes;
* `bytesOnto_codes` -- the codes of bytes spell the bytes;
* `trim_between` -- blanks at both ends do not matter;
* **`decode_encode_between`** -- the text of bytes, with blanks around it, is read back as the bytes.
-/

namespace PackedInts

/-! ## 1. Blanks around a text -/

theorem dropWhile_blanks {r : Bytes} (hr : ∀ b ∈ r, isSpace b = true) : r.dropWhile isSpace = [] :=
  List.dropWhile_eq_nil_iff.2 hr

/-- Blanks behind a text do not matter. -/
theorem trim_append_right {r : Bytes} (hr : ∀ b ∈ r, isSpace b = true) (text : Bytes) :
    trim (text ++ r) = trim text := by
  have back : ∀ b ∈ r.reverse, isSpace b = true := fun b hb => hr b (List.mem_reverse.1 hb)
  unfold trim
  rw [List.dropWhile_append]
  split
  · rename_i empty
    rw [List.isEmpty_iff.1 empty, dropWhile_blanks hr]
  · rw [List.reverse_append, List.dropWhile_append_of_pos back]

/-- **Blanks at both ends do not matter.** -/
theorem trim_between {l r : Bytes} (hl : ∀ b ∈ l, isSpace b = true)
    (hr : ∀ b ∈ r, isSpace b = true) (text : Bytes) : trim (l ++ text ++ r) = trim text := by
  rw [trim_append_right hr, trim_append_left hl]

/-- Text without any blank is left alone. -/
theorem trim_of_solid {text : Bytes} (h : ∀ b ∈ text, isSpace b = false) : trim text = text :=
  trim_eq_self (fun b hb => h b (List.mem_of_mem_head? hb))
    (fun b hb => h b (List.mem_of_mem_getLast? hb))

namespace Base64

/-! ## 2. Codes -/

/-- The six-bit codes of a byte string; bits that are missing to a last code are zero. -/
def codes : Bytes → List Nat
  | a :: b :: c :: rest => codesOfThree a b c ++ codes rest
  | [a, b] => [a.toNat / 4, a.toNat % 4 * 16 + b.toNat / 16, b.toNat % 16 * 4]
  | [a] => [a.toNat / 4, a.toNat % 4 * 16]
  | [] => []

/-- The padding signs behind the codes of so many bytes. -/
def signs (bytes : Nat) : Bytes :=
  List.replicate ((3 - bytes % 3) % 3) padding

/-- **The text of bytes is the glyphs of their codes, and padding.** -/
theorem encode_eq_glyphs : ∀ bytes : Bytes,
    encode bytes = (codes bytes).map glyph ++ signs bytes.length
  | [] => rfl
  | [a] => rfl
  | [a, b] => rfl
  | a :: b :: c :: rest => by
    have same : signs (a :: b :: c :: rest).length = signs rest.length := by
      have : (rest.length + 1 + 1 + 1) % 3 = rest.length % 3 := by omega
      unfold signs
      rw [List.length_cons, List.length_cons, List.length_cons, this]
    rw [encode_cons, encode_eq_glyphs rest, codes, List.map_append, List.append_assoc, same]

theorem lt_of_mem_codes : ∀ {bytes : Bytes} {code : Nat}, code ∈ codes bytes → code < 64
  | [], code, h => absurd h List.not_mem_nil
  | [a], code, h => by
    have ha := a.toNat_lt
    simp only [codes, List.mem_cons, List.not_mem_nil, or_false] at h
    omega
  | [a, b], code, h => by
    have ha := a.toNat_lt
    have hb := b.toNat_lt
    simp only [codes, List.mem_cons, List.not_mem_nil, or_false] at h
    omega
  | a :: b :: c :: rest, code, h => by
    have ha := a.toNat_lt
    have hb := b.toNat_lt
    have hc := c.toNat_lt
    rw [codes, List.mem_append] at h
    rcases h with three | others
    · simp only [codesOfThree, List.mem_cons, List.not_mem_nil, or_false] at three
      omega
    · exact lt_of_mem_codes others

/-- The text of bytes comes in groups of four characters. -/
theorem length_encode : ∀ bytes : Bytes, (encode bytes).length = 4 * ((bytes.length + 2) / 3)
  | [] => rfl
  | [a] => by simp [lastOne]
  | [a, b] => by simp [lastTwo]
  | a :: b :: c :: rest => by
    rw [encode_cons, List.length_append, length_encode rest]
    show 4 + 4 * ((rest.length + 2) / 3) = 4 * ((rest.length + 3 + 2) / 3)
    omega

/-- A glyph is no blank and no padding sign. -/
theorem glyph_solid : ∀ code < 64, isSpace (glyph code) = false ∧ glyph code ≠ padding := by
  decide

/-- No character of the text of bytes is a blank. -/
theorem isSpace_of_mem_encode {bytes : Bytes} {c : UInt8} (h : c ∈ encode bytes) :
    isSpace c = false := by
  rw [encode_eq_glyphs, List.mem_append] at h
  rcases h with glyphs | padded
  · obtain ⟨code, hcode, rfl⟩ := List.mem_map.1 glyphs
    exact (glyph_solid code (lt_of_mem_codes hcode)).1
  · rw [List.eq_of_mem_replicate padded]
    decide

/-! ## 3. Reading -/

theorem codesOnto_glyphs {known : List Nat} (small : ∀ code ∈ known, code < 64) (out : Array Nat)
    (rest : Bytes) :
    codesOnto out (known.map glyph ++ rest) = codesOnto (out ++ known.toArray) rest := by
  induction known generalizing out with
  | nil => simp
  | cons code known ih =>
    have lt := small code (List.mem_cons_self ..)
    rw [List.map_cons, List.cons_append, codesOnto, if_neg (glyph_solid code lt).2,
      code?_glyph code lt]
    show codesOnto (out.push code) (known.map glyph ++ rest) = _
    rw [ih fun other h => small other (List.mem_cons_of_mem _ h)]
    simp

/-- Padding of at most two signs ends the codes. -/
theorem codesOnto_signs (out : Array Nat) (bytes : Nat) :
    codesOnto out (signs bytes) = .ok out.toList := by
  have few : (3 - bytes % 3) % 3 = 0 ∨ (3 - bytes % 3) % 3 = 1 ∨ (3 - bytes % 3) % 3 = 2 := by
    omega
  unfold signs
  rcases few with none | one | two
  · rw [none]
    rfl
  · rw [one]
    rfl
  · rw [two]
    rfl

/-- **Reading the text of bytes gives their codes.** -/
theorem codesOnto_encode (bytes : Bytes) : codesOnto #[] (encode bytes) = .ok (codes bytes) := by
  rw [encode_eq_glyphs, codesOnto_glyphs (fun _ h => lt_of_mem_codes h), codesOnto_signs]
  simp

/-- A byte is spelled by its first six bits and its last two, whatever follows these in their code. -/
theorem first_spelled (a : UInt8) {q : Nat} (hq : q < 16) :
    (a.toNat / 4 * 4 + (a.toNat % 4 * 16 + q) / 16).toUInt8 = a := by
  have ha := a.toNat_lt
  apply UInt8.toNat_inj.1
  rw [UInt8.toNat_ofNat']
  omega

/-- So is one by its first four bits and its last four. -/
theorem second_spelled (b : UInt8) {p r : Nat} (hr : r < 4) :
    ((p * 16 + b.toNat / 16) % 16 * 16 + (b.toNat % 16 * 4 + r) / 4).toUInt8 = b := by
  have hb := b.toNat_lt
  apply UInt8.toNat_inj.1
  rw [UInt8.toNat_ofNat']
  omega

/-- And one by its first two bits and its last six. -/
theorem third_spelled (c : UInt8) {q : Nat} :
    ((q * 4 + c.toNat / 64) % 4 * 64 + c.toNat % 64).toUInt8 = c := by
  have hc := c.toNat_lt
  apply UInt8.toNat_inj.1
  rw [UInt8.toNat_ofNat']
  omega

/-- **The codes of bytes spell the bytes.** -/
theorem bytesOnto_codes : ∀ (bytes : Bytes) (out : Array UInt8),
    bytesOnto out (codes bytes) = out.toList ++ bytes
  | [], out => by
    unfold codes bytesOnto
    rw [List.append_nil]
  | [a], out => by
    have first := first_spelled a (q := 0) (by decide)
    unfold codes bytesOnto
    rw [Nat.add_zero] at first
    rw [first]
  | [a, b], out => by
    have hb := b.toNat_lt
    have first := first_spelled a (q := b.toNat / 16) (by omega)
    have second := second_spelled b (p := a.toNat % 4) (r := 0) (by decide)
    unfold codes bytesOnto
    rw [Nat.add_zero] at second
    rw [first, second]
  | a :: b :: c :: rest, out => by
    have hb := b.toNat_lt
    have hc := c.toNat_lt
    have first := first_spelled a (q := b.toNat / 16) (by omega)
    have second := second_spelled b (p := a.toNat % 4) (r := c.toNat / 64) (by omega)
    have third := third_spelled c (q := b.toNat % 16)
    unfold codes codesOfThree
    simp only [List.cons_append, List.nil_append, bytesOnto, bytesOfFour]
    rw [first, second, third, bytesOnto_codes rest, Array.toList_appendList, List.append_assoc]
    rfl

/-- **The text of bytes, with blanks around it, is read back as the bytes.** -/
theorem decode_encode_between {l r : Bytes} (hl : ∀ b ∈ l, isSpace b = true)
    (hr : ∀ b ∈ r, isSpace b = true) (bytes : Bytes) :
    decode (l ++ encode bytes ++ r) = .ok bytes := by
  have trimmed : trim (l ++ encode bytes ++ r) = encode bytes := by
    rw [trim_between hl hr]
    exact trim_of_solid fun _ h => isSpace_of_mem_encode h
  have whole : ¬ (encode bytes).length % 4 ≠ 0 := by
    rw [length_encode]
    omega
  unfold decode
  rw [trimmed, if_neg whole, codesOnto_encode]
  show Except.ok (bytesOnto #[] (codes bytes)) = Except.ok bytes
  rw [bytesOnto_codes]
  rfl

end Base64

end PackedInts
