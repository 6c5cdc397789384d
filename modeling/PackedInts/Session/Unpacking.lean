import PackedInts.Unpacker
import PackedInts.Source.Memory
import PackedInts.Source.Scripted
import PackedInts.Source.Stream

/-!
# Sessions of unpacking

A session is a source with the unpacker that reads from it now. Unpackers are replaced while the
source goes on, bytes are taken from the source past the unpacker, and the source itself is given
orders.

* `UnpackSession` -- the unpacker and the source;
* `UnpackAction`, `UnpackSession.perform` -- the actions and what each does;
* `UnpackReport`, `UnpackSession.step`, `UnpackSession.run` -- what an observer sees of each action;
* `MemorySource.obey`, `ScriptedSource.obey`, `StreamSource.obey` -- the orders of each kind of
  source.

Main statement: `UnpackSession.run_append`, a longer session is one session after the other.
-/

namespace PackedInts

/-! ## 1. Orders to a source -/

/-- The orders to an input stream. -/
inductive StreamSource.Order
  | raise (bit : StreamState.Bit)
  | clear
  deriving DecidableEq, Repr

def StreamSource.obey (s : StreamSource) : StreamSource.Order → StreamSource
  | .raise bit => { s with state := s.state.raise bit }
  | .clear => { s with state := .clear }

/-- A source in memory takes no orders. -/
def MemorySource.obey (_s : MemorySource) (order : Empty) : MemorySource :=
  nomatch order

/-- A scripted source takes no orders. -/
def ScriptedSource.obey (_s : ScriptedSource) (order : Empty) : ScriptedSource :=
  nomatch order

/-! ## 2. Actions -/

/-- An unpacker at work on a source. -/
structure UnpackSession (σ : Type) where
  unpacker : Unpacker
  source : σ

/-- What is done in a session whose source takes orders of type `κ`. -/
inductive UnpackAction (κ : Type)
  | read
  /-- Take a byte from the source past the unpacker. -/
  | takeByte
  /-- Drop the unpacker as it is and go on with a new one. -/
  | renew (width : UInt32)
  | order (o : κ)
  deriving DecidableEq, Repr

/-- What an action gives when it succeeds. -/
inductive UnpackAnswer
  | value (v : UInt32)
  /-- A byte was taken, or none at the end of the data. -/
  | byte (b : Option UInt8)
  | done
  deriving DecidableEq, Repr

namespace UnpackSession

variable {σ κ : Type} [Source σ]

/-- A session on the source with an unpacker of that width. -/
def start (width : UInt32) (source : σ) : Except PackingError (UnpackSession σ) :=
  (BitWidth.ofUInt32 width).map fun w => ⟨.new w, source⟩

/-- Does one action. An unsupported width leaves the unpacker in place. -/
def perform (obey : σ → κ → σ) (s : UnpackSession σ) :
    UnpackAction κ → Except PackingError UnpackAnswer × UnpackSession σ
  | .read =>
    let (result, unpacker, source) := s.unpacker.read s.source
    (result.map .value, ⟨unpacker, source⟩)
  | .takeByte =>
    match poll s.source with
    | (.ok b, source) => (.ok (.byte b), { s with source := source })
    | (.error fault, source) => (.error (.source fault), { s with source := source })
  | .renew width =>
    match BitWidth.ofUInt32 width with
    | .ok w => (.ok .done, { s with unpacker := .new w })
    | .error e => (.error e, s)
  | .order o => (.ok .done, { s with source := obey s.source o })

end UnpackSession

/-! ## 3. What an observer sees -/

/-- What is seen of one action. -/
structure UnpackReport where
  result : Except PackingError UnpackAnswer
  /-- The number of bytes that the source has not delivered yet. -/
  remaining : Nat
  width : BitWidth

namespace UnpackSession

variable {σ κ : Type} [Source σ]

/-- Does one action and reports it. -/
def step (obey : σ → κ → σ) (s : UnpackSession σ) (a : UnpackAction κ) :
    UnpackReport × UnpackSession σ :=
  let (result, s') := s.perform obey a
  ({ result := result
     remaining := (pending s'.source).length
     width := s'.unpacker.width }, s')

/-- Does actions in order, whether they fail or not, and reports each. -/
def run (obey : σ → κ → σ) (s : UnpackSession σ) :
    List (UnpackAction κ) → List UnpackReport × UnpackSession σ
  | [] => ([], s)
  | a :: as =>
    let (report, s') := s.step obey a
    let (reports, s'') := run obey s' as
    (report :: reports, s'')

/-- **A longer session is one session after the other.** -/
theorem run_append (obey : σ → κ → σ) (s : UnpackSession σ) (as bs : List (UnpackAction κ)) :
    s.run obey (as ++ bs) =
      ((s.run obey as).1 ++ ((s.run obey as).2.run obey bs).1,
        ((s.run obey as).2.run obey bs).2) := by
  induction as generalizing s with
  | nil => rfl
  | cons a as ih => simp [run, ih]

end UnpackSession

end PackedInts
