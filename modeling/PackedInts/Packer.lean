import PackedInts.Width
import PackedInts.Sink.Basic

/-!
# Packing values into a sink

A packer shifts values into a 64-bit register from below. When the register holds a whole group it
sends the group's bytes, most significant first; `finish` fills the last group with zero bits and
sends only the bytes that hold value bits.

* `Packer` -- the width, the register, the values held in it, the values accepted in all;
* `Packer.write`, `Packer.finish` -- the two operations;
* `Packer.writeAll`, `packInto` -- a list of values, and a list of values that is then finished.

A sink may fail in the middle of a group. The packer then stays as it is at that moment: the
register is kept, the value counts as accepted, and nothing is taken back. Values that are taken from
then on can be more than a group; what is counted of them wraps on its 32-bit word, and so do the
amounts of shifts, which count modulo 64 when a register is shifted.

Main statements: `Packer.toNat_shiftToTop` and `Packer.toNat_usedBytes`, nothing wraps where no more
than a group is held; `Packer.write_of_finished` and `Packer.finish_of_finished`, a finished packer
refuses values and ignores a second finish; `Packer.writeAll_append`, a longer list is one list
after the other.
-/

namespace PackedInts

/-! ## 1. The packer -/

/-- The state of packing values of one width. -/
structure Packer where
  width : BitWidth
  /-- The bits taken in and not sent yet, the last value lowest. -/
  register : UInt64
  /-- The values in the register, on a 32-bit word. -/
  held : UInt32
  /-- The values taken since the packer was made, on a 64-bit word. -/
  accepted : UInt64
  finished : Bool
  deriving DecidableEq, Repr

namespace Packer

def new (w : BitWidth) : Packer :=
  ⟨w, 0, 0, 0, false⟩

/-- The packer with one more value counted and, at a positive width, its low bits shifted in. -/
def absorb (p : Packer) (v : UInt32) : Packer :=
  if p.width.bits = 0 then { p with accepted := p.accepted + 1 }
  else
    { p with
      accepted := p.accepted + 1
      register := (p.register <<< p.width.bits.toUInt64) ||| (v.toUInt64 &&& lowMask p.width.bits)
      held := p.held + 1 }

/-- Whether the register holds exactly a group. -/
def holdsGroup (p : Packer) : Bool :=
  p.width.bits ≠ 0 ∧ p.held.toNat = p.width.groupValues

/-- How far a byte of a group lies above the last one, on a 32-bit word. -/
def shiftOfByte (w : BitWidth) (i : UInt32) : UInt32 :=
  8 * (w.groupBytes.toUInt32 - 1 - i)

/-- The leading `n` bytes of the group in the register. -/
def leadingBytes (p : Packer) (n : Nat) : Bytes :=
  (List.range n).map fun i =>
    (p.register >>> (shiftOfByte p.width i.toUInt32).toUInt64).toUInt8

/-- How far the values held lie below the top of a group, on a 32-bit word. -/
def shiftToTop (p : Packer) : UInt32 :=
  (p.width.groupValues.toUInt32 - p.held) * p.width.toUInt32

/-- The packer with its register moved up to the top of the group, zero bits below. -/
def align (p : Packer) : Packer :=
  { p with register := p.register <<< p.shiftToTop.toUInt64 }

/-- The bytes that the values held reach into, on a 32-bit word. -/
def usedBytes (p : Packer) : UInt32 :=
  (p.held * p.width.toUInt32 + 7) / 8

def emptied (p : Packer) : Packer :=
  { p with register := 0, held := 0 }

/-- The shift to a byte of the group does not wrap. -/
theorem toNat_shiftOfByte {w : BitWidth} {i : Nat} (inside : i < w.groupBytes) :
    (shiftOfByte w i.toUInt32).toNat = 8 * (w.groupBytes - 1 - i) := by
  have small := w.eight_mul_groupBytes_le
  have below : (w.groupBytes.toUInt32 - 1 - i.toUInt32).toNat = w.groupBytes - 1 - i := by
    rw [UInt32.toNat_sub_of_le, UInt32.toNat_sub_of_le]
    all_goals simp [UInt32.le_iff_toNat_le, UInt32.toNat_sub]
    all_goals omega
  rw [shiftOfByte, UInt32.toNat_mul, below]
  exact Nat.mod_eq_of_lt (by show 8 * _ < 2 ^ 32; omega)

section Within

variable {p : Packer} (within : p.held.toNat ≤ p.width.groupValues)
include within

/-- The bits of no more values than a group has fit the bytes of a group. -/
theorem held_mul_bits_le : p.held.toNat * p.width.bits ≤ 8 * p.width.groupBytes := by
  rw [← p.width.values_mul_bits]
  exact Nat.mul_le_mul_right p.width.bits within

/-- **The shift to the top does not wrap** where no more than a group is held. -/
theorem toNat_shiftToTop :
    p.shiftToTop.toNat = (p.width.groupValues - p.held.toNat) * p.width.bits := by
  have few := p.width.groupValues_le
  have small := p.width.eight_mul_groupBytes_le
  have group : p.width.groupValues.toUInt32.toNat = p.width.groupValues :=
    Nat.mod_eq_of_lt (by omega)
  have missing : (p.width.groupValues.toUInt32 - p.held).toNat
      = p.width.groupValues - p.held.toNat := by
    rw [UInt32.toNat_sub_of_le _ _ (by rwa [UInt32.le_iff_toNat_le, group]), group]
  have bound := Nat.mul_le_mul_right p.width.bits
    (Nat.sub_le p.width.groupValues p.held.toNat)
  rw [p.width.values_mul_bits] at bound
  rw [shiftToTop, UInt32.toNat_mul, missing, p.width.toNat_toUInt32]
  exact Nat.mod_eq_of_lt (by omega)

/-- **Nor does the number of the bytes** that are sent at the end. -/
theorem toNat_usedBytes : p.usedBytes.toNat = byteCount (p.held.toNat * p.width.bits) := by
  have small := p.width.eight_mul_groupBytes_le
  have bound := held_mul_bits_le within
  have bits : (p.held * p.width.toUInt32).toNat = p.held.toNat * p.width.bits := by
    rw [UInt32.toNat_mul, p.width.toNat_toUInt32]
    exact Nat.mod_eq_of_lt (by omega)
  have filled : (p.held * p.width.toUInt32 + 7).toNat = p.held.toNat * p.width.bits + 7 := by
    rw [UInt32.toNat_add, bits]
    exact Nat.mod_eq_of_lt (by show _ + 7 < 2 ^ 32; omega)
  rw [usedBytes, UInt32.toNat_div, filled]
  rfl

end Within

/-! ## 2. Operations on a sink -/

variable {σ : Type} [Sink σ]

/-- Sends the leading `n` bytes of the register's group. The register is emptied only after the
    last of them was taken. -/
def flush (p : Packer) (n : Nat) (s : σ) : Except PackingError Unit × Packer × σ :=
  match putAll s (p.leadingBytes n) with
  | (.ok (), s') => (.ok (), p.emptied, s')
  | (.error fault, s') => (.error (.sink fault), p, s')

/-- Takes one value, and sends the group that it completes. -/
def write (p : Packer) (v : UInt32) (s : σ) : Except PackingError Unit × Packer × σ :=
  if p.finished then (.error .alreadyFinished, p, s)
  else if (p.absorb v).holdsGroup then (p.absorb v).flush p.width.groupBytes s
  else (.ok (), p.absorb v, s)

/-- Sends what is left, filled with zero bits up to the next byte, and takes no value from then
    on. -/
def finish (p : Packer) (s : σ) : Except PackingError Unit × Packer × σ :=
  if p.finished then (.ok (), p, s)
  else if p.held = 0 then (.ok (), { p with finished := true }, s)
  else
    match p.align.flush p.usedBytes.toNat s with
    | (.ok (), p', s') => (.ok (), { p' with finished := true }, s')
    | (.error e, p', s') => (.error e, p', s')

/-- Takes values in order up to the first one that fails. -/
def writeAll (p : Packer) (s : σ) : List UInt32 → Except PackingError Unit × Packer × σ
  | [] => (.ok (), p, s)
  | v :: vs =>
    match p.write v s with
    | (.ok (), p', s') => writeAll p' s' vs
    | (.error e, p', s') => (.error e, p', s')

/-- **A finished packer refuses every value** and changes nothing. -/
theorem write_of_finished {p : Packer} (h : p.finished = true) (v : UInt32) (s : σ) :
    p.write v s = (.error .alreadyFinished, p, s) := by
  simp [write, h]

/-- **A finished packer ignores a second finish.** -/
theorem finish_of_finished {p : Packer} (h : p.finished = true) (s : σ) :
    p.finish s = (.ok (), p, s) := by
  simp [finish, h]

@[simp] theorem writeAll_nil (p : Packer) (s : σ) : p.writeAll s [] = (.ok (), p, s) := rfl

theorem writeAll_cons_of_ok {p p' : Packer} {s s' : σ} {v : UInt32}
    (h : p.write v s = (.ok (), p', s')) (vs : List UInt32) :
    p.writeAll s (v :: vs) = p'.writeAll s' vs := by
  rw [writeAll, h]

theorem writeAll_cons_of_error {p p' : Packer} {s s' : σ} {v : UInt32} {e : PackingError}
    (h : p.write v s = (.error e, p', s')) (vs : List UInt32) :
    p.writeAll s (v :: vs) = (.error e, p', s') := by
  rw [writeAll, h]

/-- **A longer list is one list after the other**, if the first one is taken whole. -/
theorem writeAll_append (p : Packer) (s : σ) (xs ys : List UInt32) :
    p.writeAll s (xs ++ ys) =
      match p.writeAll s xs with
      | (.ok (), p', s') => p'.writeAll s' ys
      | (.error e, p', s') => (.error e, p', s') := by
  induction xs generalizing p s with
  | nil => rfl
  | cons v vs ih =>
    cases h : p.write v s with
    | mk result rest =>
      obtain ⟨p', s'⟩ := rest
      cases result with
      | ok u =>
        cases u
        rw [List.cons_append, writeAll_cons_of_ok h, writeAll_cons_of_ok h, ih]
      | error e =>
        rw [List.cons_append, writeAll_cons_of_error h, writeAll_cons_of_error h]

end Packer

/-- Packs a list of values of one width into a sink with a packer of its own. -/
def packInto {σ : Type} [Sink σ] (w : BitWidth) (vs : List UInt32) (s : σ) :
    Except PackingError Unit × Packer × σ :=
  match (Packer.new w).writeAll s vs with
  | (.ok (), p, s') => p.finish s'
  | (.error e, p, s') => (.error e, p, s')

end PackedInts
