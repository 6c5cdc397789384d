import PackedInts.Source.Basic
import PackedInts.StreamState

/-!
# The source over an input stream

An input stream has sticky state bits and a buffer that may break at some byte. The source looks at
the bits only when the stream delivered nothing: a broken stream, or one that is not at its end, is
a fault, and any other is at the end of its data.

* `StreamSource` -- the bits, the distance to the byte at which the buffer breaks, the bytes left;
* `StreamSource.fetch` -- one byte of the stream, with what it does to the bits.

Main statements: `StreamSource.fetch_of_not_good`, a stream in a failed state delivers nothing, and
`StreamSource.fetch_of_good_cons`, a good one delivers its next byte.
-/

namespace PackedInts

/-- An input stream over bytes. -/
structure StreamSource where
  state : StreamState
  /-- The number of bytes delivered before the buffer breaks, if it ever does. -/
  breaksAfter : Option Nat
  rest : Bytes
  deriving DecidableEq, Repr

namespace StreamSource

def new (bytes : Bytes) (breaksAfter : Option Nat) : StreamSource :=
  ⟨.clear, breaksAfter, bytes⟩

/-- The stream after an operation that delivered nothing: the failure is noted beside the bits that
    the operation itself raised. -/
def failing (s : StreamSource) : StreamSource :=
  { s with state := s.state.raise .failed }

/-- Takes one byte from the stream, if it delivers one. A stream that is not good only notes the
    failure; a buffer that breaks does so before the end of the data is looked for. -/
def fetch (s : StreamSource) : Option UInt8 × StreamSource :=
  if s.state.good then
    if s.breaksAfter = some 0 then (none, { s with state := s.state.raise .broken }.failing)
    else
      match s.rest with
      | [] => (none, { s with state := s.state.raise .atEnd }.failing)
      | b :: bs => (some b, { s with breaksAfter := s.breaksAfter.map (· - 1), rest := bs })
  else (none, s.failing)

instance : Source StreamSource where
  poll s :=
    match s.fetch with
    | (some b, s') => (.ok (some b), s')
    | (none, s') =>
      if s'.state.broken || !s'.state.atEnd then (.error .streamFailed, s') else (.ok none, s')
  pending s := s.rest

/-- **A stream that is not good delivers nothing.** -/
theorem fetch_of_not_good {s : StreamSource} (h : s.state.good = false) :
    s.fetch = (none, s.failing) := by
  simp [fetch, h]

/-- **A good stream delivers its next byte**, unless its buffer breaks there. -/
theorem fetch_of_good_cons {s : StreamSource} {b : UInt8} {bs : Bytes} (h : s.state.good = true)
    (sound : s.breaksAfter ≠ some 0) (hr : s.rest = b :: bs) :
    s.fetch = (some b, { s with breaksAfter := s.breaksAfter.map (· - 1), rest := bs }) := by
  simp [fetch, h, sound, hr]

/-- At the end of its data a good stream raises the bits of the end and of the failure. -/
theorem fetch_of_good_nil {s : StreamSource} (h : s.state.good = true)
    (sound : s.breaksAfter ≠ some 0) (hr : s.rest = []) :
    s.fetch = (none, { s with state := (s.state.raise .atEnd).raise .failed }) := by
  simp [fetch, h, sound, hr, failing]

theorem poll_of_fetch {s s' : StreamSource} {b : UInt8} (h : s.fetch = (some b, s')) :
    poll s = (.ok (some b), s') := by
  simp [poll, h]

/-- A stream that delivered nothing and is at its end, but not broken, reports the end. -/
theorem poll_of_unfetched {s s' : StreamSource} (h : s.fetch = (none, s'))
    (ended : s'.state.atEnd = true) (sound : s'.state.broken = false) : poll s = (.ok none, s') := by
  simp [poll, h, ended, sound]

/-- A stream that delivered nothing and is broken, or not at its end, is a fault. -/
theorem poll_of_unclear {s s' : StreamSource} (h : s.fetch = (none, s'))
    (unclear : s'.state.broken = true ∨ s'.state.atEnd = false) :
    poll s = (.error .streamFailed, s') := by
  rcases unclear with broken | early
  · simp [poll, h, broken]
  · simp [poll, h, early]

end StreamSource

end PackedInts
