import PackedInts.Error

/-!
# Byte sinks

A sink takes bytes one at a time. An attempt always leaves a sink behind, also when the byte was
not taken, because what a failed attempt did to the sink decides what later attempts do.

* `Sink` -- the attempt `put` and the view `content`, the bytes held now;
* `putAll` -- several bytes in order, stopping at the first that is not taken.

Main statement: `putAll_append`, a longer run is one run after the other.
-/

namespace PackedInts

/-- A place that takes bytes one at a time. -/
class Sink (σ : Type) where
  /-- One attempt to write a byte: whether it was taken, and the sink afterwards. -/
  put : σ → UInt8 → Except SinkFault Unit × σ
  content : σ → Bytes

export Sink (put content)

variable {σ : Type} [Sink σ]

/-- Writes bytes in order up to the first one that is not taken. -/
def putAll (s : σ) : Bytes → Except SinkFault Unit × σ
  | [] => (.ok (), s)
  | b :: bs =>
    match put s b with
    | (.ok (), s') => putAll s' bs
    | (.error fault, s') => (.error fault, s')

@[simp] theorem putAll_nil (s : σ) : putAll s [] = (.ok (), s) := rfl

theorem putAll_cons_of_ok {s s' : σ} {b : UInt8} (h : put s b = (.ok (), s')) (bs : Bytes) :
    putAll s (b :: bs) = putAll s' bs := by
  rw [putAll, h]

theorem putAll_cons_of_error {s s' : σ} {b : UInt8} {fault : SinkFault}
    (h : put s b = (.error fault, s')) (bs : Bytes) :
    putAll s (b :: bs) = (.error fault, s') := by
  rw [putAll, h]

/-- **A longer run is one run after the other**, if the first one is taken whole. -/
theorem putAll_append (s : σ) (xs ys : Bytes) :
    putAll s (xs ++ ys) =
      match putAll s xs with
      | (.ok (), s') => putAll s' ys
      | (.error fault, s') => (.error fault, s') := by
  induction xs generalizing s with
  | nil => rfl
  | cons b bs ih =>
    cases h : put s b with
    | mk result s' =>
      cases result with
      | ok u =>
        cases u
        rw [List.cons_append, putAll_cons_of_ok h, putAll_cons_of_ok h, ih]
      | error fault =>
        rw [List.cons_append, putAll_cons_of_error h, putAll_cons_of_error h]

end PackedInts
