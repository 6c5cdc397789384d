import PackedInts.Packer
import PackedInts.Sink.Memory
import PackedInts.Sink.Scripted
import PackedInts.Sink.Stream

/-!
# Sessions of packing

A session is a sink with the packer that writes to it now. Packers are replaced while the sink
goes on, bytes are written to the sink past the packer, and the sink itself is given orders.

* `PackSession` -- the packer and the sink;
* `PackAction`, `PackSession.perform` -- the actions and what each does;
* `PackReport`, `PackSession.step`, `PackSession.run` -- what an observer sees of each action;
* `MemorySink.obey`, `StreamSink.obey`, `ScriptedSink.obey` -- the orders of each kind of sink.

Main statement: `PackSession.run_append`, a longer session is one session after the other.
-/

namespace PackedInts

/-! ## 1. Orders to a sink -/

/-- The orders to a buffer in memory. -/
inductive MemorySink.Order
  | release
  deriving DecidableEq, Repr

/-- Carries out an order; the bytes that it hands over are its answer. -/
def MemorySink.obey (s : MemorySink) : MemorySink.Order → Option Bytes × MemorySink
  | .release => (some s.release.1, s.release.2)

/-- The orders to an output stream. -/
inductive StreamSink.Order
  | raise (bit : StreamState.Bit)
  | clear
  | resize (capacity : Nat)
  deriving DecidableEq, Repr

/-- Carries out an order, which has no answer. -/
def StreamSink.obey (s : StreamSink) : StreamSink.Order → Option Bytes × StreamSink
  | .raise bit => (none, { s with state := s.state.raise bit })
  | .clear => (none, { s with state := .clear })
  | .resize capacity => (none, { s with capacity := some capacity })

/-- A scripted sink takes no orders. -/
def ScriptedSink.obey (_s : ScriptedSink) (order : Empty) : Option Bytes × ScriptedSink :=
  nomatch order

/-! ## 2. Actions -/

/-- A packer at work on a sink. -/
structure PackSession (σ : Type) where
  packer : Packer
  sink : σ

/-- What is done in a session whose sink takes orders of type `κ`. -/
inductive PackAction (κ : Type)
  | write (v : UInt32)
  | finish
  /-- Write a byte to the sink past the packer. -/
  | putByte (b : UInt8)
  /-- Drop the packer as it is and go on with a new one. -/
  | renew (width : UInt32)
  | order (o : κ)
  deriving DecidableEq, Repr

namespace PackSession

variable {σ κ : Type} [Sink σ]

/-- A session on the sink with a packer of that width. -/
def start (width : UInt32) (sink : σ) : Except PackingError (PackSession σ) :=
  (BitWidth.ofUInt32 width).map fun w => ⟨.new w, sink⟩

/-- Does one action. Its result holds the bytes that an order handed over. An unsupported width
    leaves the packer in place. -/
def perform (obey : σ → κ → Option Bytes × σ) (s : PackSession σ) :
    PackAction κ → Except PackingError (Option Bytes) × PackSession σ
  | .write v =>
    let (result, packer, sink) := s.packer.write v s.sink
    (result.map fun _ => none, ⟨packer, sink⟩)
  | .finish =>
    let (result, packer, sink) := s.packer.finish s.sink
    (result.map fun _ => none, ⟨packer, sink⟩)
  | .putByte b =>
    match put s.sink b with
    | (.ok (), sink) => (.ok none, { s with sink := sink })
    | (.error fault, sink) => (.error (.sink fault), { s with sink := sink })
  | .renew width =>
    match BitWidth.ofUInt32 width with
    | .ok w => (.ok none, { s with packer := .new w })
    | .error e => (.error e, s)
  | .order o =>
    let (answer, sink) := obey s.sink o
    (.ok answer, { s with sink := sink })

end PackSession

/-! ## 3. What an observer sees -/

/-- What is seen of one action. -/
structure PackReport where
  /-- The bytes that an order handed over, or why the action failed. -/
  result : Except PackingError (Option Bytes)
  /-- The bytes that reached the sink in this action, failed or not. -/
  emitted : Bytes
  accepted : UInt64
  finished : Bool
  width : BitWidth

namespace PackSession

variable {σ κ : Type} [Sink σ]

/-- Does one action and reports it. -/
def step (obey : σ → κ → Option Bytes × σ) (s : PackSession σ) (a : PackAction κ) :
    PackReport × PackSession σ :=
  let (result, s') := s.perform obey a
  ({ result := result
     emitted := (content s'.sink).drop (content s.sink).length
     accepted := s'.packer.accepted
     finished := s'.packer.finished
     width := s'.packer.width }, s')

/-- Does actions in order, whether they fail or not, and reports each. -/
def run (obey : σ → κ → Option Bytes × σ) (s : PackSession σ) :
    List (PackAction κ) → List PackReport × PackSession σ
  | [] => ([], s)
  | a :: as =>
    let (report, s') := s.step obey a
    let (reports, s'') := run obey s' as
    (report :: reports, s'')

/-- **A longer session is one session after the other.** -/
theorem run_append (obey : σ → κ → Option Bytes × σ) (s : PackSession σ)
    (as bs : List (PackAction κ)) :
    s.run obey (as ++ bs) =
      ((s.run obey as).1 ++ ((s.run obey as).2.run obey bs).1,
        ((s.run obey as).2.run obey bs).2) := by
  induction as generalizing s with
  | nil => rfl
  | cons a as ih => simp [run, ih]

end PackSession

end PackedInts
