import Mathlib
import PackedInts.Width

/-!
# Bit strings

A bit string is a list of bits, the most significant first. It is the flat view of packed data: no
registers and no groups, only the bits of the values one after the other.

* `Bits.ofNat`, `Bits.toNat` -- the low bits of a number, and the number that bits spell;
* `Bits.ofBytes`, `Bits.toBytes` -- the bits of bytes, and the bytes that whole groups of eight
  bits spell;
* `Bits.pad` -- a bit string filled with zero bits up to a whole number of bytes;
* `Bits.ofValues` -- the low bits of values, in order;
* `Bits.window` -- the number that a run of bits spells.

Main statements: `Bits.toNat_ofNat` and `Bits.ofNat_toNat`, `Bits.toBytes_ofBytes` and
`Bits.ofBytes_toBytes`, the two views say the same; `Bits.length_pad`, padding goes to the next
byte and no further.
-/

namespace PackedInts.Bits

/-! ## 1. Numbers -/

/-- The low `w` bits of `n`, the most significant first. -/
def ofNat : Nat → Nat → List Bool
  | 0, _ => []
  | w + 1, n => n.testBit w :: ofNat w n

/-- The number that bits spell, the most significant first. -/
def toNat (bits : List Bool) : Nat :=
  bits.foldl (fun n b => 2 * n + b.toNat) 0

@[simp] theorem length_ofNat (w n : Nat) : (ofNat w n).length = w := by
  induction w with
  | zero => rfl
  | succ w ih => simp [ofNat, ih]

/-- A first bit counts by the number of bits behind it. -/
theorem toNat_cons (b : Bool) (bits : List Bool) :
    toNat (b :: bits) = b.toNat * 2 ^ bits.length + toNat bits := by
  have general : ∀ (bits : List Bool) (n : Nat),
      bits.foldl (fun n b => 2 * n + b.toNat) n = n * 2 ^ bits.length + toNat bits := by
    intro bits
    induction bits with
    | nil => simp [toNat]
    | cons b bits ih =>
      intro n
      simp only [toNat, List.foldl_cons, List.length_cons, Nat.pow_succ]
      rw [ih (2 * n + b.toNat), ih (2 * 0 + b.toNat), Nat.add_mul, Nat.mul_zero, Nat.zero_add]
      rw [Nat.mul_comm 2 n, Nat.mul_assoc n 2, Nat.mul_comm 2 (2 ^ bits.length)]
      omega
  simpa [toNat] using general bits b.toNat

@[simp] theorem toNat_nil : toNat [] = 0 := rfl

/-- **Two runs of bits spell the first, shifted by the second's length, and the second.** -/
theorem toNat_append (left right : List Bool) :
    toNat (left ++ right) = toNat left * 2 ^ right.length + toNat right := by
  induction left with
  | nil => simp
  | cons b left ih =>
    rw [List.cons_append, toNat_cons, toNat_cons, ih, List.length_append, Nat.pow_add, Nat.add_mul,
      Nat.mul_assoc, Nat.add_assoc]

/-- Bits spell a number that has no more bits. -/
theorem toNat_lt (bits : List Bool) : toNat bits < 2 ^ bits.length := by
  induction bits with
  | nil => simp
  | cons b bits ih =>
    rw [toNat_cons, List.length_cons, Nat.pow_succ]
    cases b <;> simp <;> omega

/-- **The low bits of a number spell its remainder.** -/
theorem toNat_ofNat (w n : Nat) : toNat (ofNat w n) = n % 2 ^ w := by
  induction w with
  | zero => simp [ofNat, Nat.mod_one]
  | succ w ih =>
    rw [ofNat, toNat_cons, length_ofNat, ih, Nat.mod_pow_succ, Nat.toNat_testBit, Nat.add_comm,
      Nat.mul_comm (2 ^ w)]

/-- Bits above the low ones do not matter. -/
theorem ofNat_mod (w n : Nat) : ofNat w (n % 2 ^ w) = ofNat w n := by
  have general : ∀ u ≤ w, ofNat u (n % 2 ^ w) = ofNat u n := by
    intro u
    induction u with
    | zero => intro; rfl
    | succ u ih =>
      intro hu
      rw [ofNat, ofNat, ih (by omega), Nat.testBit_mod_two_pow]
      simp [show u < w by omega]
  exact general w (Nat.le_refl w)

/-- **The number that bits spell has those bits.** -/
theorem ofNat_toNat (bits : List Bool) : ofNat bits.length (toNat bits) = bits := by
  induction bits with
  | nil => rfl
  | cons b bits ih =>
    rw [List.length_cons, ofNat, toNat_cons]
    have hb : (b.toNat * 2 ^ bits.length + toNat bits).testBit bits.length = b := by
      rw [Nat.mul_comm, Nat.testBit_two_pow_mul_add _ (toNat_lt bits)]
      cases b <;> simp
    have hr : ofNat bits.length (b.toNat * 2 ^ bits.length + toNat bits) = bits := by
      rw [← ofNat_mod, Nat.mul_comm, Nat.mul_add_mod, Nat.mod_eq_of_lt (toNat_lt bits), ih]
    rw [hb, hr]

/-! ## 2. Bytes -/

/-- The bits of bytes, in order. -/
def ofBytes (bytes : Bytes) : List Bool :=
  bytes.flatMap fun b => ofNat 8 b.toNat

/-- The bytes that whole groups of eight bits spell; bits that fill no byte are left. -/
def toBytes : List Bool → Bytes
  | a :: b :: c :: d :: e :: f :: g :: h :: rest =>
    (toNat [a, b, c, d, e, f, g, h]).toUInt8 :: toBytes rest
  | _ => []

/-- The bits that are missing to a whole number of bytes. -/
def missing (bits : Nat) : Nat :=
  8 * byteCount bits - bits

/-- A bit string filled with zero bits up to a whole number of bytes. -/
def pad (bits : List Bool) : List Bool :=
  bits ++ List.replicate (missing bits.length) false

@[simp] theorem ofBytes_nil : ofBytes [] = [] := rfl

@[simp] theorem ofBytes_cons (b : UInt8) (bytes : Bytes) :
    ofBytes (b :: bytes) = ofNat 8 b.toNat ++ ofBytes bytes := rfl

theorem ofBytes_append (left right : Bytes) :
    ofBytes (left ++ right) = ofBytes left ++ ofBytes right :=
  List.flatMap_append

@[simp] theorem length_ofBytes (bytes : Bytes) : (ofBytes bytes).length = 8 * bytes.length := by
  induction bytes with
  | nil => rfl
  | cons b bytes ih => simp [ih]; omega

/-- Eight bits in front are the first byte. -/
theorem toBytes_append_eight {eight : List Bool} (h : eight.length = 8) (rest : List Bool) :
    toBytes (eight ++ rest) = (toNat eight).toUInt8 :: toBytes rest := by
  match eight, h with
  | [_, _, _, _, _, _, _, _], _ => rfl

/-- **Bytes are spelled by their bits.** -/
theorem toBytes_ofBytes (bytes : Bytes) : toBytes (ofBytes bytes) = bytes := by
  induction bytes with
  | nil => rfl
  | cons b bytes ih =>
    rw [ofBytes_cons, toBytes_append_eight (length_ofNat 8 _), ih, toNat_ofNat,
      Nat.mod_eq_of_lt b.toNat_lt]
    simp

/-- **Whole groups of eight bits are the bits of the bytes they spell.** -/
theorem ofBytes_toBytes {bits : List Bool} (h : 8 ∣ bits.length) : ofBytes (toBytes bits) = bits := by
  fun_induction toBytes bits with
  | case1 a b c d e f g h' rest ih =>
    have hl : 8 ∣ rest.length := by
      simp only [List.length_cons] at h
      omega
    have hlt := toNat_lt [a, b, c, d, e, f, g, h']
    rw [ofBytes_cons, ih hl]
    have : (toNat [a, b, c, d, e, f, g, h']).toUInt8.toNat = toNat [a, b, c, d, e, f, g, h'] :=
      Nat.mod_eq_of_lt hlt
    rw [this]
    exact congrArg (· ++ rest) (ofNat_toNat [a, b, c, d, e, f, g, h'])
  | case2 bits short =>
    have : bits.length < 8 := by
      rcases bits with _ | ⟨a, _ | ⟨b, _ | ⟨c, _ | ⟨d, _ | ⟨e, _ | ⟨f, _ | ⟨g, _ | ⟨h', rest⟩⟩⟩⟩⟩⟩⟩⟩
      all_goals first | exact (short _ _ _ _ _ _ _ _ _ rfl).elim | simp
    have : bits.length = 0 := by omega
    rw [List.length_eq_zero_iff.1 this]
    rfl

/-- **Padding goes to the next whole byte and no further.** -/
theorem length_pad (bits : List Bool) : (pad bits).length = 8 * byteCount bits.length := by
  simp only [pad, missing, byteCount, List.length_append, List.length_replicate]
  omega

/-- The bits of the bytes that a padded bit string spells. -/
theorem ofBytes_toBytes_pad (bits : List Bool) : ofBytes (toBytes (pad bits)) = pad bits :=
  ofBytes_toBytes (length_pad bits ▸ Nat.dvd_mul_right 8 _)

/-- A padded bit string spells as many bytes as its bits need. -/
theorem length_toBytes_pad (bits : List Bool) :
    (toBytes (pad bits)).length = byteCount bits.length := by
  have h := congrArg List.length (ofBytes_toBytes_pad bits)
  rw [length_ofBytes, length_pad] at h
  omega

/-! ## 3. Values -/

/-- The low `w` bits of each value, in order. -/
def ofValues (w : Nat) (vs : List UInt32) : List Bool :=
  vs.flatMap fun v => ofNat w v.toNat

/-- The number that `w` bits from the place `start` on spell. -/
def window (bits : List Bool) (start w : Nat) : Nat :=
  toNat ((bits.drop start).take w)

@[simp] theorem ofValues_nil (w : Nat) : ofValues w [] = [] := rfl

@[simp] theorem ofValues_cons (w : Nat) (v : UInt32) (vs : List UInt32) :
    ofValues w (v :: vs) = ofNat w v.toNat ++ ofValues w vs := rfl

theorem ofValues_append (w : Nat) (left right : List UInt32) :
    ofValues w (left ++ right) = ofValues w left ++ ofValues w right :=
  List.flatMap_append

@[simp] theorem length_ofValues (w : Nat) (vs : List UInt32) :
    (ofValues w vs).length = vs.length * w := by
  induction vs with
  | nil => simp
  | cons v vs ih => simp [ih, Nat.succ_mul]; omega

end PackedInts.Bits
