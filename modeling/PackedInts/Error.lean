import PackedInts.Text.Numeral

/-!
# What can go wrong while values are packed and unpacked

Every cause is a constructor that carries what its message names; the wording stands in one
function per type.

* `SinkFault` -- a sink did not take a byte;
* `SourceFault` -- a source broke while it was asked for a byte (running out of data is no fault);
* `PackingError` -- all that a packer, an unpacker or a size computation reports.
-/

namespace PackedInts

/-! ## 1. Faults of sinks and sources -/

/-- Why a sink did not take a byte. -/
inductive SinkFault
  /-- The sink is closed for this attempt. -/
  | closed
  /-- The output stream is in a failed state after the attempt. -/
  | streamFailed
  deriving DecidableEq, Repr

def SinkFault.message : SinkFault → Bytes
  | .closed => ascii "sink closed"
  | .streamFailed => ascii "Failed to write byte to output stream"

/-- Why a source could not say whether it has another byte. -/
inductive SourceFault
  /-- The device behind the source failed at this attempt. -/
  | device
  /-- The input stream delivered nothing and is not merely at its end. -/
  | streamFailed
  deriving DecidableEq, Repr

def SourceFault.message : SourceFault → Bytes
  | .device => ascii "device error"
  | .streamFailed => ascii "Failed to read byte from input stream"

/-! ## 2. Errors of packing and unpacking -/

/-- Why an operation on packed values failed. -/
inductive PackingError
  /-- The asked width is above eight bits. -/
  | unsupportedWidth (width : UInt32)
  | alreadyFinished
  /-- The source held no further byte for the asked value. -/
  | exhausted
  /-- So many values of this width take more bytes than a 64-bit size can say. -/
  | sizeOverflow (count : UInt64) (width : UInt32)
  /-- No list can hold so many values. -/
  | tooManyValues
  /-- A span of bytes was given without a buffer, and with a size other than zero. -/
  | missingBuffer
  | sink (fault : SinkFault)
  | source (fault : SourceFault)
  deriving DecidableEq, Repr

def PackingError.message : PackingError → Bytes
  | .unsupportedWidth width =>
      ascii "Unsupported bit width " ++ Numeral.decimal width.toNat
        ++ ascii ": only widths 0 to 8 are supported"
  | .alreadyFinished => ascii "Bit packing writer already finished"
  | .exhausted => ascii "Byte source exhausted before the requested value"
  | .sizeOverflow count width =>
      ascii "Value count " ++ Numeral.decimal count.toNat
        ++ ascii " overflows the packed size at width " ++ Numeral.decimal width.toNat
  | .tooManyValues => ascii "vector::reserve"
  | .missingBuffer => ascii "MemoryByteSource given a null buffer with non-zero size"
  | .sink fault => fault.message
  | .source fault => fault.message

end PackedInts
