import PackedInts.Source.Basic

/-!
# The source in memory

* `MemorySource` -- the bytes still to be delivered;
* `MemorySource.ofSpan` -- the source over a span of a buffer that may be absent.

Main statements: `poll_nil` and `poll_cons`, bytes come in order and the
end of the data stays the end.
-/

namespace PackedInts

/-- Bytes in memory that are delivered in order. -/
structure MemorySource where
  rest : Bytes
  deriving DecidableEq, Repr

namespace MemorySource

/-- The source over the first `size` bytes of a buffer. An absent buffer stands for no bytes, and
    any other size is refused for it. -/
def ofSpan (buffer : Option Bytes) (size : Nat) : Except PackingError MemorySource :=
  match buffer with
  | some bytes => .ok ⟨bytes.take size⟩
  | none => if size = 0 then .ok ⟨[]⟩ else .error .missingBuffer

instance : Source MemorySource where
  poll s :=
    match s.rest with
    | [] => (.ok none, s)
    | b :: bs => (.ok (some b), ⟨bs⟩)
  pending s := s.rest

/-- **The end of the data stays the end.** -/
@[simp] theorem poll_nil : poll (⟨[]⟩ : MemorySource) = (.ok none, ⟨[]⟩) := rfl

/-- **Bytes come in order.** -/
@[simp] theorem poll_cons (b : UInt8) (bs : Bytes) :
    poll (⟨b :: bs⟩ : MemorySource) = (.ok (some b), ⟨bs⟩) := rfl

@[simp] theorem pending_eq (s : MemorySource) : pending s = s.rest := rfl

end MemorySource

end PackedInts
