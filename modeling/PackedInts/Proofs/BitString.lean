import PackedInts.Bits
import PackedInts.Proofs.Sizes

/-!
# Windows of bit strings, and the bytes of a packed list

A window is read off the number that a whole bit string spells, by a division and a remainder: this
is what a register does with a shift and a mask. The bytes of a packed list are those of its bits,
and what stands in front of a byte boundary can be cut off.

* `window_eq_div_mod` -- a window is a quotient and a remainder of the whole string's number;
* `toBytes_eq_map_window` -- the bytes of a bit string are its windows of eight bits;
* `packed` -- the bytes of a list of values of one width;
* `packed_append` -- values that fill whole bytes come first and leave the rest as it is;
* `window_ofValues` -- the windows of the width's size are the values again.
-/

namespace PackedInts

/-- A list over the numbers from zero on is its first entry and the list over the numbers behind. -/
theorem map_range_succ {α : Type} (f : Nat → α) (n : Nat) :
    (List.range (n + 1)).map f = f 0 :: (List.range n).map fun k => f (k + 1) := by
  rw [List.range_succ_eq_map, List.map_cons, List.map_map]
  rfl

/-- The same for a list over the numbers from another one on. -/
theorem map_range_add_succ {α : Type} (f : Nat → α) (m n : Nat) :
    (List.range (n + 1)).map (fun k => f (m + k))
      = f m :: (List.range n).map fun k => f (m + 1 + k) := by
  rw [map_range_succ, Nat.add_zero]
  refine congrArg _ (List.map_congr_left fun k _ => ?_)
  rw [Nat.add_comm k 1, Nat.add_assoc]

namespace Bits

/-! ## 1. Parts of a bit string as numbers -/

@[simp] theorem toNat_replicate_false (n : Nat) : toNat (List.replicate n false) = 0 := by
  induction n with
  | zero => rfl
  | succ n ih => rw [List.replicate_succ, toNat_cons, ih]; simp

theorem toNat_append_zeros (bits : List Bool) (n : Nat) :
    toNat (bits ++ List.replicate n false) = toNat bits * 2 ^ n := by
  rw [toNat_append, toNat_replicate_false, List.length_replicate, Nat.add_zero]

theorem toNat_eq_take_add_drop (bits : List Bool) (n : Nat) :
    toNat bits = 2 ^ (bits.length - n) * toNat (bits.take n) + toNat (bits.drop n) := by
  rw [Nat.mul_comm, ← List.length_drop, ← toNat_append, List.take_append_drop]

theorem toNat_drop_lt (bits : List Bool) (n : Nat) :
    toNat (bits.drop n) < 2 ^ (bits.length - n) := by
  rw [← List.length_drop]
  exact toNat_lt _

theorem toNat_take (bits : List Bool) (n : Nat) :
    toNat (bits.take n) = toNat bits / 2 ^ (bits.length - n) := by
  rw [toNat_eq_take_add_drop bits n, Nat.mul_add_div (Nat.two_pow_pos _),
    Nat.div_eq_of_lt (toNat_drop_lt bits n), Nat.add_zero]

theorem toNat_drop (bits : List Bool) (n : Nat) :
    toNat (bits.drop n) = toNat bits % 2 ^ (bits.length - n) := by
  rw [toNat_eq_take_add_drop bits n, Nat.mul_add_mod, Nat.mod_eq_of_lt (toNat_drop_lt bits n)]

/-- The low bits of a number are those of its quotient, and below them those of its remainder. -/
theorem ofNat_add (m n x : Nat) : ofNat (m + n) x = ofNat m (x / 2 ^ n) ++ ofNat n x := by
  induction m with
  | zero => rw [Nat.zero_add]; rfl
  | succ m ih =>
    rw [Nat.succ_add, ofNat, ih, ofNat, Nat.testBit_div_two_pow, List.cons_append]

/-- **The low bits of two numbers, one above the other.** -/
theorem ofNat_join (m x : Nat) {n y : Nat} (h : y < 2 ^ n) :
    ofNat (m + n) (x % 2 ^ m * 2 ^ n + y) = ofNat m x ++ ofNat n y := by
  have high : (x % 2 ^ m * 2 ^ n + y) / 2 ^ n = x % 2 ^ m := by
    rw [Nat.mul_comm, Nat.mul_add_div (Nat.two_pow_pos n), Nat.div_eq_of_lt h, Nat.add_zero]
  have low : (x % 2 ^ m * 2 ^ n + y) % 2 ^ n = y := by
    rw [Nat.mul_comm, Nat.mul_add_mod, Nat.mod_eq_of_lt h]
  rw [ofNat_add, high, ofNat_mod, ← ofNat_mod n (_ + _), low]

theorem ofNat_zero (w : Nat) : ofNat w 0 = List.replicate w false := by
  induction w with
  | zero => rfl
  | succ w ih => rw [ofNat, ih, Nat.zero_testBit, List.replicate_succ]

/-- Cutting a number off above the bits that are looked at changes none of them. -/
theorem ofNat_mod_of_le {m n : Nat} (h : m ≤ n) (x : Nat) : ofNat m (x % 2 ^ n) = ofNat m x := by
  rw [← ofNat_mod m (x % 2 ^ n), Nat.mod_mod_of_dvd x (pow_dvd_pow 2 h), ofNat_mod]

/-- **A number moved up by some bits loses as many in front** and has zero bits behind. -/
theorem ofNat_mul_two_pow {k n : Nat} (h : k ≤ n) (x : Nat) :
    ofNat n (x * 2 ^ k) = (ofNat n x).drop k ++ List.replicate k false := by
  have low : ofNat k (x * 2 ^ k) = List.replicate k false := by
    rw [← ofNat_mod, Nat.mul_mod_left, ofNat_zero]
  have high : (ofNat n x).drop k = ofNat (n - k) x := by
    have split := ofNat_add k (n - k) x
    rw [Nat.add_sub_cancel' h] at split
    rw [split, List.drop_left' (length_ofNat k _)]
  have moved := ofNat_add (n - k) k (x * 2 ^ k)
  rw [Nat.sub_add_cancel h, Nat.mul_div_cancel _ (Nat.two_pow_pos k)] at moved
  rw [moved, low, high]

/-! ## 2. Windows -/

/-- **A window is a quotient and a remainder** of the number that the whole string spells. -/
theorem window_eq_div_mod {bits : List Bool} {start w : Nat} (h : start + w ≤ bits.length) :
    window bits start w = toNat bits / 2 ^ (bits.length - (start + w)) % 2 ^ w := by
  have swap : (bits.drop start).take w = (bits.take (start + w)).drop start := by
    rw [List.drop_take, Nat.add_sub_cancel_left]
  have rest : (bits.take (start + w)).length - start = w := by
    rw [List.length_take, Nat.min_eq_left h]
    omega
  rw [window, swap, toNat_drop, rest, toNat_take]

theorem window_append_left {left : List Bool} {start w : Nat} (h : start + w ≤ left.length)
    (right : List Bool) : window (left ++ right) start w = window left start w := by
  unfold window
  rw [List.drop_append_of_le_length (by omega), List.take_append_of_le_length]
  rw [List.length_drop]
  omega

/-- Bits in front of a window only move it. -/
theorem window_append_right (left right : List Bool) (start w : Nat) :
    window (left ++ right) (left.length + start) w = window right start w := by
  rw [window, ← List.drop_drop, List.drop_left, window]

/-- **A window has the bits of its place.** -/
theorem ofNat_window {bits : List Bool} {start w : Nat} (h : start + w ≤ bits.length) :
    ofNat w (window bits start w) = (bits.drop start).take w := by
  have len : ((bits.drop start).take w).length = w := by
    rw [List.length_take, List.length_drop]
    omega
  have spelled := ofNat_toNat ((bits.drop start).take w)
  rw [len] at spelled
  exact spelled

theorem window_lt (bits : List Bool) (start w : Nat) : window bits start w < 2 ^ w := by
  have lt := toNat_lt ((bits.drop start).take w)
  exact Nat.lt_of_lt_of_le lt (Nat.pow_le_pow_right (by decide) (List.length_take_le w _))

theorem window_zero_width (bits : List Bool) (start : Nat) : window bits start 0 = 0 := by
  rw [window, List.take_zero, toNat_nil]

/-! ## 3. Bytes of bit strings -/

/-- Whole bytes in front come out first. -/
theorem toBytes_append {left : List Bool} (h : 8 ∣ left.length) (right : List Bool) :
    toBytes (left ++ right) = toBytes left ++ toBytes right := by
  have front : ∀ bytes : Bytes, toBytes (ofBytes bytes ++ right) = bytes ++ toBytes right := by
    intro bytes
    induction bytes with
    | nil => rfl
    | cons b bytes ih =>
      rw [ofBytes_cons, List.append_assoc, toBytes_append_eight (length_ofNat 8 _), ih, toNat_ofNat,
        Nat.mod_eq_of_lt b.toNat_lt]
      simp
  rw [← front (toBytes left), ofBytes_toBytes h]

/-- **The bytes of a bit string are its windows of eight bits.** -/
theorem toBytes_eq_map_window {bits : List Bool} {n : Nat} (h : bits.length = 8 * n) :
    toBytes bits = (List.range n).map fun i => (window bits (8 * i) 8).toUInt8 := by
  induction n generalizing bits with
  | zero =>
    rw [List.length_eq_zero_iff.1 h]
    rfl
  | succ n ih =>
    have head : (bits.take 8).length = 8 := by
      rw [List.length_take]
      omega
    have tail : (bits.drop 8).length = 8 * n := by
      rw [List.length_drop]
      omega
    have split : toBytes bits = (toNat (bits.take 8)).toUInt8 :: toBytes (bits.drop 8) := by
      rw [← toBytes_append_eight head, List.take_append_drop]
    rw [split, ih tail, map_range_succ]
    refine congrArg₂ _ rfl (List.map_congr_left fun i _ => ?_)
    rw [window, List.drop_drop, window, Nat.mul_succ, Nat.add_comm]

/-- **The bits of the first bytes are the first bits.** -/
theorem ofBytes_take (bytes : Bytes) (n : Nat) :
    ofBytes (bytes.take n) = (ofBytes bytes).take (8 * n) := by
  induction bytes generalizing n with
  | nil => rw [List.take_nil, ofBytes_nil, List.take_nil]
  | cons b bytes ih =>
    cases n with
    | zero => rfl
    | succ n =>
      have first : 8 * (n + 1) = (ofNat 8 b.toNat).length + 8 * n := by
        rw [length_ofNat, Nat.mul_succ, Nat.add_comm]
      rw [List.take_succ_cons, ofBytes_cons, ofBytes_cons, ih, first, List.take_length_add_append]

/-- The windows in the first bytes are those of all of them. -/
theorem window_take {b : Bytes} {n start w : Nat} (hn : n ≤ b.length)
    (inside : start + w ≤ 8 * n) :
    window (ofBytes (b.take n)) start w = window (ofBytes b) start w := by
  have whole : ofBytes b = ofBytes (b.take n) ++ ofBytes (b.drop n) := by
    rw [← ofBytes_append, List.take_append_drop]
  rw [whole, window_append_left]
  rw [length_ofBytes, List.length_take, Nat.min_eq_left hn]
  exact inside

/-! ## 4. Packed lists -/

/-- The bytes of the values of a width: the low bits of each, in order, filled with zero bits up to
    a whole number of bytes. -/
def packed (w : Nat) (vs : List UInt32) : Bytes :=
  toBytes (pad (ofValues w vs))

theorem pad_append {left : List Bool} (h : 8 ∣ left.length) (right : List Bool) :
    pad (left ++ right) = left ++ pad right := by
  obtain ⟨q, hq⟩ := h
  have same : missing (left ++ right).length = missing right.length := by
    rw [List.length_append, hq, missing, missing, byteCount_eight_mul_add]
    omega
  rw [pad, pad, same, List.append_assoc]

@[simp] theorem packed_nil (w : Nat) : packed w [] = [] := by
  simp [packed, pad, missing, byteCount, toBytes]

theorem ofBytes_packed (w : Nat) (vs : List UInt32) :
    ofBytes (packed w vs) = pad (ofValues w vs) :=
  ofBytes_toBytes_pad _

theorem length_packed (w : Nat) (vs : List UInt32) :
    (packed w vs).length = byteCount (vs.length * w) := by
  rw [packed, length_toBytes_pad, length_ofValues]

theorem packed_of_dvd {w : Nat} {vs : List UInt32} (h : 8 ∣ vs.length * w) :
    packed w vs = toBytes (ofValues w vs) := by
  have whole : 8 ∣ (ofValues w vs).length := by rwa [length_ofValues]
  have padded : pad (ofValues w vs) = ofValues w vs := by
    simpa [pad, missing, byteCount] using pad_append whole []
  rw [packed, padded]

/-- **Values that fill whole bytes come first** and leave the rest as it is. -/
theorem packed_append {w : Nat} {left : List UInt32} (h : 8 ∣ left.length * w)
    (right : List UInt32) : packed w (left ++ right) = packed w left ++ packed w right := by
  have whole : 8 ∣ (ofValues w left).length := by rwa [length_ofValues]
  rw [packed_of_dvd h, packed, ofValues_append, pad_append whole, toBytes_append whole, packed]

theorem packed_zero_width (vs : List UInt32) : packed 0 vs = [] := by
  have := length_packed 0 vs
  rw [Nat.mul_zero] at this
  exact List.length_eq_zero_iff.1 this

/-- **The windows of the width's size are the values again**, each without its higher bits. -/
theorem window_ofValues {w k : Nat} {vs : List UInt32} (h : k < vs.length) (rest : List Bool) :
    window (ofValues w vs ++ rest) (k * w) w = vs[k].toNat % 2 ^ w := by
  induction vs generalizing k with
  | nil => exact absurd h (Nat.not_lt_zero _)
  | cons v vs ih =>
    have front : (ofNat w v.toNat).length = w := length_ofNat w _
    rw [ofValues_cons, List.append_assoc]
    cases k with
    | zero =>
      rw [window_append_left (by omega), window, Nat.zero_mul, List.drop_zero,
        List.take_of_length_le (by omega), toNat_ofNat]
      rfl
    | succ k =>
      have hk : k < vs.length := by simpa using h
      have step : (k + 1) * w = (ofNat w v.toNat).length + k * w := by
        rw [front, Nat.succ_mul, Nat.add_comm]
      rw [step, window_append_right, ih hk]
      rfl

end Bits

end PackedInts
