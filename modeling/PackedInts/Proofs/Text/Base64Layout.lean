import PackedInts.Proofs.BitString
import PackedInts.Proofs.Text.Base64

/-!
# The layout of base64 text

The text of bytes is read off their bits alone: cut into groups of six, the last one filled up with
zero bits, each written as the character at its place in the alphabet, and padding signs behind them
up to a whole number of groups of four.

* `alphabet`, `blanks` -- the sixty-four characters in order, and the blanks around a text;
* `spelled` -- the bits that a text of characters of the alphabet spells;
* `flatMap_codes` -- the codes of bytes have the bits of the bytes;
* `spelled_glyphs` -- glyphs spell their codes;
* **`encode_layout`** -- the text of bytes, character by character.
-/

namespace PackedInts.Base64

/-! ## 1. The alphabet and the blanks -/

/-- The characters of base64 text, in the order of their codes. -/
def alphabet : Bytes :=
  ascii "ABCDEFGHIJKLMNOPQRSTUVWXYZabcdefghijklmnopqrstuvwxyz0123456789+/"

/-- Space, tab, line feed, vertical tab, form feed and carriage return. -/
def blanks : Bytes :=
  [32, 9, 10, 11, 12, 13]

theorem isSpace_of_mem_blanks : ∀ b ∈ blanks, isSpace b = true := by
  decide +kernel

/-- Every glyph is the character at the place of its code. -/
theorem glyph_in_alphabet :
    ∀ code < 64, glyph code ∈ alphabet ∧ alphabet.idxOf (glyph code) = code := by
  decide

/-- The bits that a text spells, six for each character, which stand for its place in the
    alphabet. -/
def spelled (text : Bytes) : List Bool :=
  text.flatMap fun c => Bits.ofNat 6 (alphabet.idxOf c)

/-! ## 2. Codes and their bits -/

/-- The bits that are missing to groups of six behind the bits of so many bytes. -/
def missingBits (bytes : Nat) : Nat :=
  (6 - 8 * bytes % 6) % 6

/-- A byte's bits are those of its upper part and, below them, those of its lower. -/
theorem ofNat_eight (m n d : Nat) (whole : m + n = 8) (parts : 2 ^ n = d) (x : UInt8) :
    Bits.ofNat 8 x.toNat = Bits.ofNat m (x.toNat / d) ++ Bits.ofNat n x.toNat := by
  rw [← whole, ← parts]
  exact Bits.ofNat_add m n x.toNat

/-- The second code has the last two bits of one byte and the first four of the next. -/
theorem ofNat_second (a b : UInt8) : Bits.ofNat 6 (a.toNat % 4 * 16 + b.toNat / 16)
    = Bits.ofNat 2 a.toNat ++ Bits.ofNat 4 (b.toNat / 16) := by
  have hb := b.toNat_lt
  exact Bits.ofNat_join 2 a.toNat (n := 4) (by omega)

/-- **The codes of bytes have the bits of the bytes**, and zeros up to a group of six. -/
theorem flatMap_codes : ∀ bytes : Bytes, (codes bytes).flatMap (Bits.ofNat 6)
    = Bits.ofBytes bytes ++ List.replicate (missingBits bytes.length) false
  | [] => rfl
  | [a] => by
    have second : Bits.ofNat 6 (a.toNat % 4 * 16) = Bits.ofNat 2 a.toNat ++ Bits.ofNat 4 0 :=
      Bits.ofNat_join 2 a.toNat (n := 4) (y := 0) (by decide)
    simp only [codes, List.flatMap_cons, List.flatMap_nil, Bits.ofBytes_cons, Bits.ofBytes_nil,
      List.append_nil]
    rw [second, Bits.ofNat_zero, ofNat_eight 6 2 4 rfl rfl a, List.append_assoc,
      List.length_singleton]
    rfl
  | [a, b] => by
    have third : Bits.ofNat 6 (b.toNat % 16 * 4) = Bits.ofNat 4 b.toNat ++ Bits.ofNat 2 0 :=
      Bits.ofNat_join 4 b.toNat (n := 2) (y := 0) (by decide)
    simp only [codes, List.flatMap_cons, List.flatMap_nil, Bits.ofBytes_cons, Bits.ofBytes_nil,
      List.append_nil]
    have len : [a, b].length = 2 := rfl
    rw [ofNat_second, third, Bits.ofNat_zero, ofNat_eight 6 2 4 rfl rfl a,
      ofNat_eight 4 4 16 rfl rfl b, len]
    simp only [List.append_assoc]
    rfl
  | a :: b :: c :: rest => by
    have hc := c.toNat_lt
    have third : Bits.ofNat 6 (b.toNat % 16 * 4 + c.toNat / 64)
        = Bits.ofNat 4 b.toNat ++ Bits.ofNat 2 (c.toNat / 64) :=
      Bits.ofNat_join 4 b.toNat (n := 2) (by omega)
    have fourth : Bits.ofNat 6 (c.toNat % 64) = Bits.ofNat 6 c.toNat := Bits.ofNat_mod 6 c.toNat
    have same : missingBits (a :: b :: c :: rest).length = missingBits rest.length := by
      simp only [missingBits, List.length_cons]
      omega
    rw [codes, List.flatMap_append, flatMap_codes rest, same]
    simp only [codesOfThree, List.flatMap_cons, List.flatMap_nil, Bits.ofBytes_cons,
      List.append_nil]
    rw [ofNat_second, third, fourth, ofNat_eight 6 2 4 rfl rfl a, ofNat_eight 4 4 16 rfl rfl b,
      ofNat_eight 2 6 64 rfl rfl c]
    simp only [List.append_assoc]

/-- **Glyphs spell their codes.** -/
theorem spelled_glyphs {known : List Nat} (small : ∀ code ∈ known, code < 64) :
    spelled (known.map glyph) = known.flatMap (Bits.ofNat 6) := by
  unfold spelled
  rw [List.flatMap_map]
  refine List.flatMap_congr fun code member => ?_
  rw [(glyph_in_alphabet code (small code member)).2]

/-! ## 3. The text of bytes -/

/-- **The text of bytes, character by character.** It has four characters for every three bytes or part
    of them and no line break. In front of its padding signs stand characters of the alphabet that spell
    the bits of the bytes, with zeros up to a group of six. -/
theorem encode_layout (bytes : Bytes) :
    (encode bytes).length = 4 * ((bytes.length + 2) / 3) ∧
      '\n'.toUInt8 ∉ encode bytes ∧ '\r'.toUInt8 ∉ encode bytes ∧
      ∃ run, encode bytes = run ++ List.replicate ((3 - bytes.length % 3) % 3) '='.toUInt8 ∧
        (∀ c ∈ run, c ∈ alphabet) ∧
        spelled run = Bits.ofBytes bytes
          ++ List.replicate ((6 - 8 * bytes.length % 6) % 6) false := by
  have small : ∀ code ∈ codes bytes, code < 64 := fun _ member => lt_of_mem_codes member
  have solid : ∀ c, isSpace c = true → c ∉ encode bytes := by
    intro c blank member
    rw [isSpace_of_mem_encode member] at blank
    cases blank
  refine ⟨length_encode bytes, solid _ (by decide), solid _ (by decide),
    (codes bytes).map glyph, encode_eq_glyphs bytes, ?_, ?_⟩
  · intro c member
    obtain ⟨code, known, rfl⟩ := List.mem_map.1 member
    exact (glyph_in_alphabet code (small code known)).1
  · rw [spelled_glyphs small]
    exact flatMap_codes bytes

end PackedInts.Base64
