import PackedInts.Sink.Basic

/-!
# The sink in memory

* `MemorySink` -- a growing buffer that takes every byte;
* `MemorySink.release` -- hands the buffer over and leaves an empty one.

Main statement: `MemorySink.putAll_eq`, whatever is written is appended.
-/

namespace PackedInts

/-- A growing buffer of bytes. -/
structure MemorySink where
  buffer : Array UInt8
  deriving DecidableEq, Repr

namespace MemorySink

/-- The empty buffer. -/
def empty : MemorySink := ⟨#[]⟩

/-- The buffer's bytes, and the sink with an empty buffer in its place. -/
def release (s : MemorySink) : Bytes × MemorySink :=
  (s.buffer.toList, empty)

instance : Sink MemorySink where
  put s b := (.ok (), ⟨s.buffer.push b⟩)
  content s := s.buffer.toList

@[simp] theorem put_eq (s : MemorySink) (b : UInt8) : put s b = (.ok (), ⟨s.buffer.push b⟩) := rfl

@[simp] theorem content_eq (s : MemorySink) : content s = s.buffer.toList := rfl

/-- **Whatever is written is appended**, and no attempt fails. -/
theorem putAll_eq (s : MemorySink) (bs : Bytes) :
    putAll s bs = (.ok (), ⟨s.buffer ++ bs.toArray⟩) := by
  induction bs generalizing s with
  | nil => simp
  | cons b bs ih => rw [putAll_cons_of_ok (put_eq s b), ih]; simp

end MemorySink

end PackedInts
