import PackedInts.Packer
import PackedInts.Unpacker
import PackedInts.Sink.Memory
import PackedInts.Source.Memory

/-!
# Packed lists of values

* `pack` -- the bytes of a list of values of one width;
* `unpack` -- so many values of one width from the head of a byte string.

The packed bytes carry neither width nor count: both are given again to unpack. `unpack` checks the
size before it reads, so a list is read whole or not at all.

Main statements: `pack_of_unsupported`, a width above eight is refused under its own number;
`unpack_of_size_error`, a count whose size cannot be said is refused before the bytes are looked at.
-/

namespace PackedInts

/-- The largest number of values that a list in memory may have. -/
def maxValues : UInt64 :=
  0x1FFFFFFFFFFFFFFF

/-- The packed bytes of the values. A value's bits above the width are dropped. -/
def pack (vs : List UInt32) (width : UInt32) : Except PackingError Bytes :=
  match BitWidth.ofUInt32 width with
  | .error e => .error e
  | .ok w =>
    match packInto w vs MemorySink.empty with
    | (.ok (), _, sink) => .ok (content sink)
    | (.error e, _, _) => .error e

/-- The first `count` values of the packed bytes; bytes behind them do not matter. -/
def unpack (bytes : Bytes) (count : UInt64) (width : UInt32) :
    Except PackingError (List UInt32) := do
  let size ← packedSize count width
  let w ← BitWidth.ofUInt32 width
  if bytes.length < size.toNat then .error .exhausted
  else if maxValues < count then .error .tooManyValues
  else ((Unpacker.new w).readMany (MemorySource.mk bytes) count.toNat).1

/-- **A width above eight is refused** under its own number. -/
theorem pack_of_unsupported {width : UInt32} (h : 8 < width.toNat) (vs : List UInt32) :
    pack vs width = .error (.unsupportedWidth width) := by
  rw [pack, BitWidth.ofUInt32_eq_error_iff.2 ⟨h, rfl⟩]

/-- **A count whose size cannot be said is refused** before the bytes are looked at. -/
theorem unpack_of_size_error {count : UInt64} {width : UInt32} {e : PackingError}
    (h : packedSize count width = .error e) (bytes : Bytes) :
    unpack bytes count width = .error e := by
  rw [unpack, h]
  rfl

end PackedInts
