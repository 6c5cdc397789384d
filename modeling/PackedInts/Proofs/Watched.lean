import Mathlib
import PackedInts.Packer
import PackedInts.Unpacker

/-!
# Operations that are watched

The arithmetic of a packer and of an unpacker is that of words. A shift by 64 bits or more means
nothing, a bit that is moved out at the top is lost, a difference below zero wraps, and bits that are
joined with others in their place are not to be told from them any more. None of this shows in what an
operation returns. A watched operation is the operation with every one of its steps looked at before it
is done: it gives nothing if a step goes wrong, and else what the operation gives.

* `Watched.shiftUp`, `Watched.shiftDown`, `Watched.join`, `Watched.difference`, `Watched.lowMask` --
  the steps on words;
* `Packer.writeWatched`, `Packer.finishWatched` -- the operations of a packer; a flush is looked at as
  a whole besides, for bits above the group;
* `Unpacker.readWatched` -- the operation of an unpacker.

Main statements: `Watched.shiftUp_of_fits`, `Watched.shiftDown_of_lt`, `Watched.join_of_disjoint` and
`Watched.difference_of_le`, when a step goes well.
-/

namespace PackedInts

/-! ## 1. Steps -/

namespace Watched

/-- A word moved up, by less than 64 bits and without losing one at the top. -/
def shiftUp (x : UInt64) (k : Nat) : Option UInt64 :=
  if k < 64 ∧ x.toNat * 2 ^ k < 2 ^ 64 then some (x <<< k.toUInt64) else none

/-- A word moved down, by less than 64 bits. -/
def shiftDown (x : UInt64) (k : Nat) : Option UInt64 :=
  if k < 64 then some (x >>> k.toUInt64) else none

/-- Two words joined that have no bit in common. -/
def join (x y : UInt64) : Option UInt64 :=
  if x &&& y = 0 then some (x ||| y) else none

/-- The difference of two numbers in unsigned words, which does not wrap. -/
def difference (a b : Nat) : Option Nat :=
  if b ≤ a then some (a - b) else none

/-- The mask of the low `width` bits, by a shift of its own. -/
def lowMask (width : Nat) : Option UInt64 :=
  (shiftUp 1 width).map (· - 1)

variable {x y : UInt64} {k : Nat}

theorem shiftUp_of_fits (amount : k < 64) (fits : x.toNat * 2 ^ k < 2 ^ 64) :
    shiftUp x k = some (x <<< k.toUInt64) :=
  if_pos ⟨amount, fits⟩

theorem shiftDown_of_lt (amount : k < 64) : shiftDown x k = some (x >>> k.toUInt64) :=
  if_pos amount

theorem join_of_disjoint (disjoint : x &&& y = 0) : join x y = some (x ||| y) :=
  if_pos disjoint

theorem difference_of_le {a b : Nat} (le : b ≤ a) : difference a b = some (a - b) :=
  if_pos le

theorem lowMask_of_lt (amount : k < 64) : lowMask k = some (PackedInts.lowMask k) := by
  have fits : (1 : UInt64).toNat * 2 ^ k < 2 ^ 64 := by
    rw [UInt64.toNat_one, Nat.one_mul]
    exact Nat.pow_lt_pow_right (by decide) amount
  rw [lowMask, shiftUp_of_fits amount fits]
  rfl

end Watched

/-! ## 2. Packing -/

namespace Packer

/-- `absorb`, watched. -/
def absorbWatched (p : Packer) (v : UInt32) : Option Packer :=
  if p.width.bits = 0 then some { p with accepted := p.accepted + 1 }
  else do
    let mask ← Watched.lowMask p.width.bits
    let moved ← Watched.shiftUp p.register p.width.bits
    let register ← Watched.join moved (v.toUInt64 &&& mask)
    return { p with accepted := p.accepted + 1, register := register, held := p.held + 1 }

/-- `leadingBytes`, watched: the amount of each shift comes of two differences. -/
def leadingBytesWatched (p : Packer) (n : Nat) : Option Bytes :=
  (List.range n).mapM fun i => do
    let last ← Watched.difference p.width.groupBytes 1
    let below ← Watched.difference last i
    let moved ← Watched.shiftDown p.register (8 * below)
    return moved.toUInt8

/-- `align`, watched. -/
def alignWatched (p : Packer) : Option Packer := do
  let missing ← Watched.difference p.width.groupValues p.held.toNat
  let register ← Watched.shiftUp p.register (missing * p.width.bits)
  return { p with register := register }

variable {σ : Type} [Sink σ]

/-- `flush`, watched: the register holds no bit above those of a group. -/
def flushWatched (p : Packer) (n : Nat) (s : σ) :
    Option (Except PackingError Unit × Packer × σ) :=
  if p.register.toNat < 2 ^ (8 * p.width.groupBytes) then do
    let bytes ← p.leadingBytesWatched n
    match putAll s bytes with
    | (.ok (), s') => return (.ok (), p.emptied, s')
    | (.error fault, s') => return (.error (.sink fault), p, s')
  else none

/-- `write`, watched. -/
def writeWatched (p : Packer) (v : UInt32) (s : σ) :
    Option (Except PackingError Unit × Packer × σ) :=
  if p.finished then some (.error .alreadyFinished, p, s)
  else do
    let p' ← p.absorbWatched v
    if p'.holdsGroup then p'.flushWatched p.width.groupBytes s else return (.ok (), p', s)

/-- `finish`, watched. -/
def finishWatched (p : Packer) (s : σ) : Option (Except PackingError Unit × Packer × σ) :=
  if p.finished then some (.ok (), p, s)
  else if p.held = 0 then some (.ok (), { p with finished := true }, s)
  else do
    let aligned ← p.alignWatched
    match ← aligned.flushWatched (byteCount (p.held.toNat * p.width.bits)) s with
    | (.ok (), p', s') => return (.ok (), { p' with finished := true }, s')
    | (.error e, p', s') => return (.error e, p', s')

end Packer

/-! ## 3. Unpacking -/

namespace Unpacker

/-- `neededBytes`, watched. -/
def neededBytesWatched (u : Unpacker) : Option Nat := do
  let index ← Watched.difference u.width.groupValues u.remaining
  return byteCount ((index + 1) * u.width.bits)

/-- `place`, watched: the byte meets no bit that is set. -/
def placeWatched (u : Unpacker) (b : UInt8) : Option Unpacker := do
  let last ← Watched.difference u.width.groupBytes 1
  let below ← Watched.difference last u.loaded
  let moved ← Watched.shiftUp b.toUInt64 (8 * below)
  let register ← Watched.join u.register moved
  return { u with register := register, loaded := u.loaded + 1 }

/-- `valueAbove`, watched. -/
def valueAboveWatched (u : Unpacker) (below : Nat) : Option UInt32 := do
  let moved ← Watched.shiftDown u.register (below * u.width.bits)
  let mask ← Watched.lowMask u.width.bits
  return (moved &&& mask).toUInt32

variable {σ : Type} [Source σ]

/-- `load`, watched. -/
def loadWatched (u : Unpacker) (s : σ) : Nat → Option (Except PackingError Unit × Unpacker × σ)
  | 0 => some (.ok (), u, s)
  | n + 1 =>
    match poll s with
    | (.ok (some b), s') => do loadWatched (← u.placeWatched b) s' n
    | (.ok none, s') => some (.error .exhausted, u, s')
    | (.error fault, s') => some (.error (.source fault), u, s')

/-- `readOpen`, watched. -/
def readOpenWatched (u : Unpacker) (s : σ) :
    Option (Except PackingError UInt32 × Unpacker × σ) := do
  let needed ← u.neededBytesWatched
  match ← u.loadWatched s (needed - u.loaded) with
  | (.ok (), u', s') =>
    let left ← Watched.difference u'.remaining 1
    let v ← u'.valueAboveWatched left
    return (.ok v, { u' with remaining := left }, s')
  | (.error e, u', s') => return (.error e, u', s')

/-- `read`, watched. -/
def readWatched (u : Unpacker) (s : σ) : Option (Except PackingError UInt32 × Unpacker × σ) :=
  if u.width.bits = 0 then some (.ok 0, u, s) else u.openGroup.readOpenWatched s

end Unpacker

end PackedInts
