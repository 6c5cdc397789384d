import PackedInts.Packer
import PackedInts.Unpacker

/-!
# Mixed streams

One stream may hold raw bytes and packed values of several widths one after the other. Nothing in
the stream says where a segment ends: a reader is told the shape of each, and every segment ends at
a byte.

* `Segment` -- raw bytes, or packed values of a width;
* `Segment.write`, `writeSegments` -- segments written to one sink;
* `Segment.Shape`, `Segment.Shape.read`, `readSegments` -- segments of given shapes read from one
  source.
-/

namespace PackedInts

/-- A stretch of a mixed stream. -/
inductive Segment
  | raw (bytes : Bytes)
  /-- Values of a width, filled up to a whole number of bytes. -/
  | packed (width : BitWidth) (values : List UInt32)
  deriving DecidableEq, Repr

namespace Segment

/-- What a reader has to know of a segment. -/
inductive Shape
  | raw (bytes : Nat)
  | packed (width : BitWidth) (values : Nat)
  deriving DecidableEq, Repr

def shape : Segment → Shape
  | .raw bytes => .raw bytes.length
  | .packed width values => .packed width values.length

/-- Writes a segment; packed values get a packer of their own. -/
def write {σ : Type} [Sink σ] (s : σ) : Segment → Except PackingError Unit × σ
  | .raw bytes =>
    match putAll s bytes with
    | (.ok (), s') => (.ok (), s')
    | (.error fault, s') => (.error (.sink fault), s')
  | .packed width values =>
    match packInto width values s with
    | (result, _, s') => (result, s')

/-- Takes so many bytes from a source. -/
def takeBytes {σ : Type} [Source σ] (s : σ) : Nat → Except PackingError Bytes × σ
  | 0 => (.ok [], s)
  | n + 1 =>
    match poll s with
    | (.ok (some b), s') =>
      match takeBytes s' n with
      | (result, s'') => (result.map (b :: ·), s'')
    | (.ok none, s') => (.error .exhausted, s')
    | (.error fault, s') => (.error (.source fault), s')

/-- Reads a segment of a shape; packed values get an unpacker of their own. -/
def Shape.read {σ : Type} [Source σ] (s : σ) : Shape → Except PackingError Segment × σ
  | .raw n =>
    match takeBytes s n with
    | (result, s') => (result.map .raw, s')
  | .packed width n =>
    match (Unpacker.new width).readMany s n with
    | (result, _, s') => (result.map (.packed width), s')

end Segment

/-- Writes segments in order up to the first one that fails. -/
def writeSegments {σ : Type} [Sink σ] (s : σ) : List Segment → Except PackingError Unit × σ
  | [] => (.ok (), s)
  | segment :: segments =>
    match segment.write s with
    | (.ok (), s') => writeSegments s' segments
    | (.error e, s') => (.error e, s')

/-- Reads segments of the shapes in order up to the first one that fails. -/
def readSegments {σ : Type} [Source σ] (s : σ) :
    List Segment.Shape → Except PackingError (List Segment) × σ
  | [] => (.ok [], s)
  | shape :: shapes =>
    match shape.read s with
    | (.ok segment, s') =>
      match readSegments s' shapes with
      | (result, s'') => (result.map (segment :: ·), s'')
    | (.error e, s') => (.error e, s')

end PackedInts
