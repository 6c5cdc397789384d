import PackedInts.Source.Basic

/-!
# A source that fails by a script

Attempts are numbered from zero over the source's whole life, whatever became of them, and the
script says what each one does. An attempt that fails or that reports a false end of the data
consumes nothing.

* `ScriptedSource` -- the script, the attempts made, the bytes still to be delivered;
* `ScriptedSource.ofLists` -- the source with its failing and its falsely ending attempts listed.
-/

namespace PackedInts

/-- What an attempt of a scripted source does. -/
inductive Attempt
  /-- It delivers the next byte, if there is one. -/
  | deliver
  | fail
  /-- It reports the end of the data, true or not. -/
  | pretendEnd
  deriving DecidableEq, Repr

/-- A source whose attempts go by their number. -/
structure ScriptedSource where
  script : Nat → Attempt
  attempts : Nat
  rest : Bytes

namespace ScriptedSource

def new (script : Nat → Attempt) (bytes : Bytes) : ScriptedSource :=
  ⟨script, 0, bytes⟩

/-- A fresh source whose listed attempts break or report a false end; a number in both lists
    breaks. -/
def ofLists (failing ending : List Nat) (bytes : Bytes) : ScriptedSource :=
  new (fun n => if failing.contains n then .fail else if ending.contains n then .pretendEnd
    else .deliver) bytes

/-- The source after an attempt that delivered nothing. -/
def passed (s : ScriptedSource) : ScriptedSource :=
  { s with attempts := s.attempts + 1 }

instance : Source ScriptedSource where
  poll s :=
    match s.script s.attempts, s.rest with
    | .fail, _ => (.error .device, s.passed)
    | .pretendEnd, _ => (.ok none, s.passed)
    | .deliver, [] => (.ok none, s.passed)
    | .deliver, b :: bs => (.ok (some b), { s.passed with rest := bs })
  pending s := s.rest

end ScriptedSource

end PackedInts
