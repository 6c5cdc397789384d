import PackedInts.Segment
import PackedInts.Sink.Stream
import PackedInts.Source.Stream
import PackedInts.Proofs.RoundTrip

/-!
# Mixed streams are read back

Every segment ends at a byte, and its reader takes exactly the bytes that its writer sent. So a
stream of segments of any widths and lengths, written one after the other, is read back segment by
segment, and behind the last one nothing is left.

* `TakesAll` -- a sink that takes every byte and appends it to its content;
* `Segment.bytes`, `Segment.low` -- the bytes of a segment, and what a reader gets of it;
* `writeSegments_of_ok` -- segments become their bytes on every sink that takes them;
* `readSegments_of_delivers` -- segments come back from every source that delivers their bytes;
* **`readSegments_writeSegments`** -- what was written is read back.
-/

namespace PackedInts

/-! ## 1. Sinks that never fail -/

section Sink

variable {σ : Type} [Sink σ]

/-- The sink takes any bytes whole and appends them to its content. -/
def TakesAll (s : σ) : Prop :=
  ∀ bs : Bytes, ∃ s', putAll s bs = (.ok (), s') ∧ content s' = content s ++ bs

theorem MemorySink.takesAll (s : MemorySink) : TakesAll s := by
  intro bs
  refine ⟨_, MemorySink.putAll_eq s bs, ?_⟩
  simp

/-- A stream in the good state over a buffer without bound takes every byte. -/
theorem StreamSink.takesAll {s : StreamSink} (good : s.state.good = true)
    (unbounded : s.capacity = none) : TakesAll s := by
  intro bs
  induction bs generalizing s with
  | nil => exact ⟨s, rfl, (List.append_nil _).symm⟩
  | cons b bs ih =>
    have room : s.hasRoom = true := by rw [hasRoom, unbounded]
    have first := put_of_room good room b
    obtain ⟨s', others, held⟩ := @ih { s with buffer := s.buffer.push b } good unbounded
    refine ⟨s', by rw [putAll_cons_of_ok first, others], ?_⟩
    rw [held]
    show (s.buffer.push b).toList ++ bs = s.buffer.toList ++ b :: bs
    rw [Array.toList_push, List.append_assoc]
    rfl

end Sink

/-- A stream in the good state that never breaks delivers its bytes. -/
theorem StreamSource.delivers (bs rest : Bytes) : Delivers
    (StreamSource.mk .clear none (bs ++ rest)) bs (StreamSource.mk .clear none rest) := by
  induction bs with
  | nil => exact .done _
  | cons b bs ih => exact .more (poll_of_fetch (fetch_of_good_cons rfl (by simp) rfl)) ih

/-! ## 2. Segments -/

namespace Segment

/-- The bytes of a segment. -/
def bytes : Segment → Bytes
  | .raw bytes => bytes
  | .packed w vs => Bits.packed w.bits vs

/-- The segment as it is read back: every value without its bits above the width. -/
def low : Segment → Segment
  | .raw bytes => .raw bytes
  | .packed w vs => .packed w (vs.map (Bits.low w.bits))

theorem write_of_ok {σ : Type} [Sink σ] {s s' : σ} {segment : Segment}
    (h : putAll s segment.bytes = (.ok (), s')) : segment.write s = (.ok (), s') := by
  cases segment with
  | raw bytes =>
    have h : putAll s bytes = (.ok (), s') := h
    rw [write, h]
  | packed w vs =>
    obtain ⟨p, run, -, -⟩ := packInto_of_ok h
    rw [write, run]

theorem takeBytes_of_delivers {σ : Type} [Source σ] {s s' : σ} {bs : Bytes}
    (h : Delivers s bs s') : takeBytes s bs.length = (.ok bs, s') := by
  induction h with
  | done s => rfl
  | more first _ ih =>
    rw [List.length_cons, takeBytes, first]
    simp only [ih]
    rfl

/-- **A segment is read back from its bytes**, and the source is left right behind them. -/
theorem read_of_delivers {σ : Type} [Source σ] {s s' : σ} {segment : Segment}
    (h : Delivers s segment.bytes s') : segment.shape.read s = (.ok segment.low, s') := by
  cases segment with
  | raw bytes =>
    have h : Delivers s bytes s' := h
    rw [shape, Shape.read, takeBytes_of_delivers h]
    rfl
  | packed w vs =>
    obtain ⟨u, run⟩ := Unpacker.readMany_new h (Bits.length_packed w.bits vs)
    have values := Bits.windows_ofValues (w := w.bits) (Nat.le_refl vs.length)
      (List.replicate (Bits.missing (Bits.ofValues w.bits vs).length) false)
    have bits : Bits.ofBytes (packed w vs).bytes = Bits.pad (Bits.ofValues w.bits vs) :=
      Bits.ofBytes_packed w.bits vs
    rw [bits, Bits.pad, values, List.take_length] at run
    rw [shape, Shape.read, run]
    rfl

end Segment

/-! ## 3. Lists of segments -/

theorem writeSegments_of_ok {σ : Type} [Sink σ] {s s' : σ} {segments : List Segment}
    (h : putAll s (segments.flatMap Segment.bytes) = (.ok (), s')) :
    writeSegments s segments = (.ok (), s') := by
  induction segments generalizing s with
  | nil =>
    rw [List.flatMap_nil, putAll_nil] at h
    cases h
    rfl
  | cons segment segments ih =>
    obtain ⟨t, first, others⟩ := putAll_append_ok h
    rw [writeSegments, Segment.write_of_ok first]
    exact ih others

theorem readSegments_of_delivers {σ : Type} [Source σ] {s s' : σ} {segments : List Segment}
    (h : Delivers s (segments.flatMap Segment.bytes) s') :
    readSegments s (segments.map Segment.shape) = (.ok (segments.map Segment.low), s') := by
  induction segments generalizing s with
  | nil =>
    cases h
    rfl
  | cons segment segments ih =>
    obtain ⟨t, first, others⟩ := Delivers.of_append h
    rw [List.map_cons, readSegments, Segment.read_of_delivers first]
    simp only [ih others]
    rfl

/-- **What was written as segments is read back as these segments**, each value without its bits
    above the width. The sink is any that never fails; the source is one in memory over the bytes
    that were written, which is at its end afterwards, or any that delivers them, which is left right
    behind them. -/
theorem readSegments_writeSegments {σ τ : Type} [Sink σ] [Source τ] (segments : List Segment)
    {s : σ} (h : TakesAll s) :
    ∃ written s', writeSegments s segments = (.ok (), s') ∧
      content s' = content s ++ written ∧
      readSegments (MemorySource.mk written) (segments.map Segment.shape)
        = (.ok (segments.map Segment.low), MemorySource.mk []) ∧
      ∀ r r' : τ, Delivers r written r' → readSegments r (segments.map Segment.shape)
        = (.ok (segments.map Segment.low), r') := by
  obtain ⟨s', taken, held⟩ := h (segments.flatMap Segment.bytes)
  have whole := MemorySource.delivers (segments.flatMap Segment.bytes) []
  rw [List.append_nil] at whole
  exact ⟨_, s', writeSegments_of_ok taken, held, readSegments_of_delivers whole,
    fun _ _ supply => readSegments_of_delivers supply⟩

/-- Raw bytes between values of three, zero and eight bits, over streams. -/
theorem readSegments_writeSegments_over_streams :
    TakesAll (StreamSink.new none) ∧
      ∃ written s',
        writeSegments (StreamSink.new none) [.packed ⟨3, by decide⟩ [5, 10], .raw [7],
          .packed ⟨0, by decide⟩ [4], .packed ⟨8, by decide⟩ [300]] = (.ok (), s') ∧
        content s' = written ∧
        readSegments (StreamSource.new written none) [.packed ⟨3, by decide⟩ 2, .raw 1,
          .packed ⟨0, by decide⟩ 1, .packed ⟨8, by decide⟩ 1]
          = (.ok [.packed ⟨3, by decide⟩ [5, 2], .raw [7], .packed ⟨0, by decide⟩ [0],
            .packed ⟨8, by decide⟩ [44]], StreamSource.new [] none) := by
  have unfailing : TakesAll (StreamSink.new none) := StreamSink.takesAll rfl rfl
  obtain ⟨written, s', run, held, -, others⟩ :=
    @readSegments_writeSegments StreamSink StreamSource _ _
      [.packed ⟨3, by decide⟩ [5, 10], .raw [7], .packed ⟨0, by decide⟩ [4],
        .packed ⟨8, by decide⟩ [300]] _ unfailing
  have supply := StreamSource.delivers written []
  rw [List.append_nil] at supply
  exact ⟨unfailing, written, s', run, held, others _ _ supply⟩

end PackedInts
