import PackedInts.Error

/-!
# Byte sources

A source is asked for one byte at a time. It delivers one, or says that its data are at their end,
or breaks; in every case it is left behind for the next attempt.

* `Source` -- the attempt `poll` and the view `pending`, the bytes not yet delivered.
-/

namespace PackedInts

/-- A place that delivers bytes one at a time. -/
class Source (σ : Type) where
  /-- One attempt to get a byte: the byte, or none at the end of the data, and the source
      afterwards. -/
  poll : σ → Except SourceFault (Option UInt8) × σ
  /-- The bytes that the source has not delivered yet. -/
  pending : σ → Bytes

export Source (poll pending)

end PackedInts
