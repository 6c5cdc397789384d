/-!
# State bits of a stream

A byte stream of the outside world carries three sticky bits beside its data. While any of them is
set the stream moves no byte; only `clear` takes them away.

* `StreamState` -- the three bits; `StreamState.good` when none is set;
* `StreamState.raise` -- sets one of them.
-/

namespace PackedInts

/-- The three state bits of a stream. -/
structure StreamState where
  /-- The end of the data was met. -/
  atEnd : Bool
  /-- An operation did not do what it was asked for. -/
  failed : Bool
  /-- The buffer under the stream broke. -/
  broken : Bool
  deriving DecidableEq, Repr

namespace StreamState

def clear : StreamState := ⟨false, false, false⟩

/-- Whether no bit is set. -/
def good (s : StreamState) : Bool :=
  !s.atEnd && !s.failed && !s.broken

inductive Bit
  | atEnd
  | failed
  | broken
  deriving DecidableEq, Repr

def raise (s : StreamState) : Bit → StreamState
  | .atEnd => { s with atEnd := true }
  | .failed => { s with failed := true }
  | .broken => { s with broken := true }

@[simp] theorem good_clear : clear.good = true := rfl

/-- A raised bit makes the state not good, whatever it was. -/
@[simp] theorem good_raise (s : StreamState) (bit : Bit) : (s.raise bit).good = false := by
  cases bit <;> simp [raise, good]

/-- Only the clear state is good. -/
theorem good_iff {s : StreamState} : s.good = true ↔ s = clear := by
  obtain ⟨a, f, b⟩ := s
  cases a <;> cases f <;> cases b <;> decide

end StreamState

end PackedInts
