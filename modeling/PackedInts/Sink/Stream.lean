import PackedInts.Sink.Basic
import PackedInts.StreamState

/-!
# The sink over an output stream

An output stream has sticky state bits and a buffer that may be full. The sink looks at the bits
after each attempt.

* `StreamSink` -- the bits, the capacity of the buffer, the bytes it took.

Main statements: `StreamSink.put_of_not_good`, a stream in a failed state takes nothing more, and
`StreamSink.put_of_full`, a refused byte puts it into that state.
-/

namespace PackedInts

/-- An output stream over a buffer that takes at most `capacity` bytes, or any number. -/
structure StreamSink where
  state : StreamState
  capacity : Option Nat
  buffer : Array UInt8

namespace StreamSink

def new (capacity : Option Nat) : StreamSink :=
  ⟨.clear, capacity, #[]⟩

def hasRoom (s : StreamSink) : Bool :=
  match s.capacity with
  | none => true
  | some n => s.buffer.size < n

/-- Puts a byte into the stream. A stream that is not good writes nothing and notes the failure; a
    full buffer breaks it. -/
def transfer (s : StreamSink) (b : UInt8) : StreamSink :=
  if s.state.good then
    if s.hasRoom then { s with buffer := s.buffer.push b }
    else { s with state := s.state.raise .broken }
  else { s with state := s.state.raise .failed }

instance : Sink StreamSink where
  put s b :=
    let s' := s.transfer b
    if s'.state.failed || s'.state.broken then (.error .streamFailed, s') else (.ok (), s')
  content s := s.buffer.toList

/-- **A stream that is not good takes nothing.** -/
theorem put_of_not_good {s : StreamSink} (h : s.state.good = false) (b : UInt8) :
    put s b = (.error .streamFailed, { s with state := s.state.raise .failed }) := by
  simp [put, transfer, h, StreamState.raise]

/-- **A byte that finds no room breaks the stream.** -/
theorem put_of_full {s : StreamSink} (h : s.state.good = true) (full : s.hasRoom = false)
    (b : UInt8) :
    put s b = (.error .streamFailed, { s with state := s.state.raise .broken }) := by
  simp [put, transfer, h, full, StreamState.raise]

/-- A good stream with room appends the byte. -/
theorem put_of_room {s : StreamSink} (h : s.state.good = true) (room : s.hasRoom = true)
    (b : UInt8) : put s b = (.ok (), { s with buffer := s.buffer.push b }) := by
  have hs : s.state.failed = false ∧ s.state.broken = false := by
    simp only [StreamState.good, Bool.and_eq_true, Bool.not_eq_true'] at h
    exact ⟨h.1.2, h.2⟩
  simp [put, transfer, h, room, hs]

end StreamSink

end PackedInts
