import PackedInts.Width
import PackedInts.Source.Basic

/-!
# Unpacking values from a source

An unpacker loads the bytes of a group into a 64-bit register from above, each byte only when a
value needs it, so bytes behind the last value stay in the source.

* `Unpacker` -- the width, the register, the bytes loaded into it, the values left in the group;
* `Unpacker.read` -- one value;
* `Unpacker.readMany` -- a number of values.

A source may fail before a value is complete. The bytes loaded so far stay in the register, and a
later read goes on from there.

Main statements: `Unpacker.read_of_bits_eq_zero`, at width zero the source is never touched;
`Unpacker.readMany_succ`, a run of reads is one read and then the others.
-/

namespace PackedInts

/-! ## 1. The unpacker -/

/-- The state of unpacking values of one width. -/
structure Unpacker where
  width : BitWidth
  /-- The bytes of the group that are loaded, the first one highest. -/
  register : UInt64
  /-- The values of the group that were not read yet. -/
  remaining : Nat
  /-- The bytes of the group that are loaded. -/
  loaded : Nat
  deriving DecidableEq, Repr

namespace Unpacker

def new (w : BitWidth) : Unpacker :=
  ⟨w, 0, 0, 0⟩

/-- The unpacker with a group to read from: a new and empty one if the last is used up. -/
def openGroup (u : Unpacker) : Unpacker :=
  if u.remaining = 0 then { u with register := 0, loaded := 0, remaining := u.width.groupValues }
  else u

/-- The bytes of the group that its next value reaches into. -/
def neededBytes (u : Unpacker) : Nat :=
  byteCount ((u.width.groupValues - u.remaining + 1) * u.width.bits)

/-- The unpacker with one more byte in its register, below those loaded before. -/
def place (u : Unpacker) (b : UInt8) : Unpacker :=
  { u with
    register :=
      u.register ||| (b.toUInt64 <<< (8 * (u.width.groupBytes - 1 - u.loaded)).toUInt64)
    loaded := u.loaded + 1 }

/-- The value that stands in the register above so many values. -/
def valueAbove (u : Unpacker) (below : Nat) : UInt32 :=
  ((u.register >>> (below * u.width.bits).toUInt64) &&& lowMask u.width.bits).toUInt32

/-! ## 2. Operations on a source -/

variable {σ : Type} [Source σ]

/-- Loads so many bytes. What was loaded before a failure stays loaded. -/
def load (u : Unpacker) (s : σ) : Nat → Except PackingError Unit × Unpacker × σ
  | 0 => (.ok (), u, s)
  | n + 1 =>
    match poll s with
    | (.ok (some b), s') => load (u.place b) s' n
    | (.ok none, s') => (.error .exhausted, u, s')
    | (.error fault, s') => (.error (.source fault), u, s')

/-- Reads the next value of an open group. -/
def readOpen (u : Unpacker) (s : σ) : Except PackingError UInt32 × Unpacker × σ :=
  match u.load s (u.neededBytes - u.loaded) with
  | (.ok (), u', s') =>
    (.ok (u'.valueAbove (u'.remaining - 1)), { u' with remaining := u'.remaining - 1 }, s')
  | (.error e, u', s') => (.error e, u', s')

/-- Reads the next value. At width zero every value is zero and takes no byte. -/
def read (u : Unpacker) (s : σ) : Except PackingError UInt32 × Unpacker × σ :=
  if u.width.bits = 0 then (.ok 0, u, s) else u.openGroup.readOpen s

/-- Reads so many values behind those read before, up to the first one that fails. -/
def readOnto (values : Array UInt32) (u : Unpacker) (s : σ) :
    Nat → Except PackingError (List UInt32) × Unpacker × σ
  | 0 => (.ok values.toList, u, s)
  | n + 1 =>
    match u.read s with
    | (.ok v, u', s') => readOnto (values.push v) u' s' n
    | (.error e, u', s') => (.error e, u', s')

/-- Reads so many values, up to the first one that fails. -/
def readMany (u : Unpacker) (s : σ) (n : Nat) : Except PackingError (List UInt32) × Unpacker × σ :=
  readOnto #[] u s n

/-- **At width zero the source is never touched.** -/
theorem read_of_bits_eq_zero {u : Unpacker} (h : u.width.bits = 0) (s : σ) :
    u.read s = (.ok 0, u, s) := by
  simp [read, h]

/-- The values read before stand before those read now, and change nothing else. -/
theorem readOnto_eq (values : Array UInt32) (u : Unpacker) (s : σ) (n : Nat) :
    readOnto values u s n =
      ((readMany u s n).1.map (values.toList ++ ·), (readMany u s n).2) := by
  have general : ∀ (n : Nat) (xs ys : Array UInt32) (u : Unpacker) (s : σ),
      readOnto (xs ++ ys) u s n =
        ((readOnto ys u s n).1.map (xs.toList ++ ·), (readOnto ys u s n).2) := by
    intro n
    induction n with
    | zero => intro xs ys u s; simp [readOnto, Except.map]
    | succ n ih =>
      intro xs ys u s
      simp only [readOnto]
      match u.read s with
      | (.ok v, u', s') =>
        have push : (xs ++ ys).push v = xs ++ ys.push v := by simp
        simpa only [push] using ih xs (ys.push v) u' s'
      | (.error e, u', s') => rfl
  simpa [readMany] using general n values #[] u s

@[simp] theorem readMany_zero (u : Unpacker) (s : σ) : u.readMany s 0 = (.ok [], u, s) := rfl

/-- **A run of reads is one read and then the others.** -/
theorem readMany_succ (u : Unpacker) (s : σ) (n : Nat) :
    u.readMany s (n + 1) =
      match u.read s with
      | (.ok v, u', s') => ((u'.readMany s' n).1.map (v :: ·), (u'.readMany s' n).2)
      | (.error e, u', s') => (.error e, u', s') := by
  rw [readMany, readOnto]
  match u.read s with
  | (.ok v, u', s') => simp [readOnto_eq]
  | (.error e, u', s') => rfl

end Unpacker

end PackedInts
