import PackedInts.Sink.Basic

/-!
# A sink that fails by a script

Attempts are numbered from zero over the sink's whole life, the failed ones included, and the
script says which of them fail. Such a sink reaches every order of failures.

* `ScriptedSink` -- the script, the attempts made, the bytes taken;
* `ScriptedSink.closedAt` -- the sink that fails at the listed attempts.
-/

namespace PackedInts

/-- A sink whose attempts fail by their number. -/
structure ScriptedSink where
  fails : Nat → Bool
  attempts : Nat
  buffer : Array UInt8

namespace ScriptedSink

def new (fails : Nat → Bool) : ScriptedSink :=
  ⟨fails, 0, #[]⟩

/-- A fresh sink that is closed at the listed attempts. -/
def closedAt (numbers : List Nat) : ScriptedSink :=
  new fun n => numbers.contains n

instance : Sink ScriptedSink where
  put s b :=
    if s.fails s.attempts then (.error .closed, { s with attempts := s.attempts + 1 })
    else (.ok (), { s with attempts := s.attempts + 1, buffer := s.buffer.push b })
  content s := s.buffer.toList

/-- An attempt that the script fails stores nothing. -/
theorem put_of_fails {s : ScriptedSink} (h : s.fails s.attempts = true) (b : UInt8) :
    put s b = (.error .closed, { s with attempts := s.attempts + 1 }) := by
  simp [put, h]

/-- Any other attempt appends the byte. -/
theorem put_of_not_fails {s : ScriptedSink} (h : s.fails s.attempts = false) (b : UInt8) :
    put s b = (.ok (), { s with attempts := s.attempts + 1, buffer := s.buffer.push b }) := by
  simp [put, h]

end ScriptedSink

end PackedInts
