import PackedInts.Proofs.Watched
import PackedInts.Proofs.Packing.Turns

/-!
# The bounds of a packer

A packer whose sink takes every byte holds less than a group between any two operations, and no bit of
its register is above those of the values it holds. From there every step of the next operation goes
well, whatever becomes of the operation on the sink.

* `Packer.leadingBytesWatched_eq`, `Packer.flushWatched_eq` -- a flush of a register that holds no more
  than a group;
* `Packer.Carries.writeWatched_eq`, `Packer.Carries.finishWatched_eq` -- the operations of a packer that
  carries values;
* `Packer.Resting` -- what a packer keeps between two operations;
* `Packer.Resting.write`, `Packer.Resting.finish` -- an operation that is not refused keeps it;
* **`PackSession.resting_run`** -- so does a session in which no byte is refused.
-/

namespace PackedInts

/-- A list of which every entry has an outcome has the list of the outcomes. -/
theorem mapM_of_forall_some {α β : Type} {f : α → Option β} {g : α → β} {entries : List α}
    (h : ∀ a ∈ entries, f a = some (g a)) : entries.mapM f = some (entries.map g) := by
  induction entries with
  | nil => rfl
  | cons a entries ih =>
    rw [List.mapM_cons, h a (List.mem_cons_self ..),
      ih fun b hb => h b (List.mem_cons_of_mem a hb)]
    rfl

namespace Packer

variable {σ : Type} [Sink σ] {s s' : σ} {p p' : Packer} {w : BitWidth} {vs : List UInt32}

/-! ## 1. Flushes -/

/-- **No amount of a flush leaves the group**, for any register. -/
theorem leadingBytesWatched_eq (p : Packer) {n : Nat} (within : n ≤ p.width.groupBytes) :
    p.leadingBytesWatched n = some (p.leadingBytes n) := by
  have small := p.width.eight_mul_groupBytes_le
  refine mapM_of_forall_some fun i hi => ?_
  have hi : i < n := List.mem_range.1 hi
  rw [toUInt64_of_toNat_eq (toNat_shiftOfByte (Nat.lt_of_lt_of_le hi within))]
  rw [Watched.difference_of_le (show 1 ≤ p.width.groupBytes by omega), Option.bind_eq_bind,
    Option.bind_some, Watched.difference_of_le (by omega), Option.bind_eq_bind, Option.bind_some,
    Watched.shiftDown_of_lt (by omega)]
  rfl

/-- **A flush goes well** if the register has no bit above those of a group. -/
theorem flushWatched_eq {n : Nat} (within : n ≤ p.width.groupBytes)
    (group : p.register.toNat < 2 ^ (8 * p.width.groupBytes)) (s : σ) :
    p.flushWatched n s = some (p.flush n s) := by
  rw [flushWatched, if_pos group, p.leadingBytesWatched_eq within, flush, Option.bind_eq_bind,
    Option.bind_some]
  rcases putAll s (p.leadingBytes n) with ⟨_ | _, _⟩
  · rfl
  · rfl

/-! ## 2. Operations of a packer that carries values -/

namespace Carries

/-- A register that carries values has no bit above those of a group. -/
theorem register_lt_group (h : p.Carries w vs) : p.register.toNat < 2 ^ (8 * w.groupBytes) := by
  have within := Nat.mul_le_mul_right w.bits h.fits
  rw [w.values_mul_bits] at within
  exact Nat.lt_of_lt_of_le h.register_lt (Nat.pow_le_pow_right (by decide) within)

theorem register_align_lt (h : p.Carries w vs) :
    p.align.register.toNat < 2 ^ (8 * w.groupBytes) := by
  rw [h.register_align, ← h.length_filled]
  exact Bits.toNat_lt _

/-- **A value is taken in without losing a bit of the others** and without meeting one. -/
theorem absorbWatched_eq (h : p.Carries w vs) (room : vs.length < w.groupValues) (v : UInt32) :
    p.absorbWatched v = some (p.absorb v) := by
  have fits := h.register_fits_shift room
  obtain ⟨rfl, positive, -, -, -, -⟩ := h
  have narrow : p.width.bits < 64 := Nat.lt_of_le_of_lt p.width.bits_le (by decide)
  have wide : ¬ p.width.bits = 0 := Nat.pos_iff_ne_zero.1 positive
  have below : (v.toUInt64 &&& lowMask p.width.bits).toNat < 2 ^ p.width.bits := by
    rw [toNat_maskedValue v narrow]
    exact Nat.mod_lt _ (Nat.two_pow_pos _)
  have apart := and_eq_zero_of_aligned (toNat_shiftLeft_of_fits narrow fits) below
  rw [absorbWatched, if_neg wide, Packer.absorb, if_neg wide, Watched.lowMask_of_lt narrow,
    Watched.shiftUp_of_fits narrow fits]
  simp only [Option.bind_eq_bind, Option.bind_some, Watched.join_of_disjoint apart, Option.pure_def]

/-- **The register is aligned without losing a bit.** -/
theorem alignWatched_eq (h : p.Carries w vs) : p.alignWatched = some p.align := by
  have fill := h.bits_add_room
  have small := w.eight_mul_groupBytes_le
  have counted := h.held_le
  have fits : p.register.toNat * 2 ^ ((p.width.groupValues - p.held.toNat) * p.width.bits)
      < 2 ^ 64 := by
    rw [h.held, h.width]
    exact h.register_fits_align
  have amount : (p.width.groupValues - p.held.toNat) * p.width.bits < 64 := by
    rw [h.held, h.width]
    omega
  rw [alignWatched, Watched.difference_of_le counted, align_of_within counted]
  simp only [Option.bind_eq_bind, Option.bind_some, Watched.shiftUp_of_fits amount fits,
    Option.pure_def]

/-- **Every step of a write goes well**, on any sink. -/
theorem writeWatched_eq (h : p.Carries w vs) (room : vs.length < w.groupValues) (v : UInt32)
    (s : σ) : p.writeWatched v s = some (p.write v s) := by
  have carried := h.absorb room v
  have active : ¬ p.finished = true := ne_true_of_eq_false h.active
  rw [writeWatched, if_neg active, h.absorbWatched_eq room v, write, if_neg active,
    Option.bind_eq_bind, Option.bind_some]
  by_cases group : (p.absorb v).holdsGroup = true
  · rw [if_pos group, if_pos group]
    refine flushWatched_eq ?_ ?_ s
    · rw [absorb_width]
    · rw [carried.width]
      exact carried.register_lt_group
  · rw [if_neg group, if_neg group]
    rfl

/-- **Every step of a finish goes well**, on any sink. -/
theorem finishWatched_eq (h : p.Carries w vs) (s : σ) :
    p.finishWatched s = some (p.finish s) := by
  have active : ¬ p.finished = true := ne_true_of_eq_false h.active
  rw [finishWatched, if_neg active, finish, if_neg active]
  by_cases none : p.held = 0
  · rw [if_pos none, if_pos none]
  · rw [Packer.toNat_usedBytes h.held_le]
    have flushed : p.align.flushWatched (byteCount (p.held.toNat * p.width.bits)) s
        = some (p.align.flush (byteCount (p.held.toNat * p.width.bits)) s) := by
      have atWidth : p.align.width = w := h.width
      refine flushWatched_eq ?_ ?_ s
      · rw [atWidth, h.width, h.held]
        exact w.byteCount_le_of_le h.fits
      · rw [atWidth]
        exact h.register_align_lt
    rw [if_neg none, if_neg none, h.alignWatched_eq, Option.bind_eq_bind, Option.bind_some, flushed,
      Option.bind_eq_bind, Option.bind_some]
    rcases p.align.flush (byteCount (p.held.toNat * p.width.bits)) s with ⟨_ | _, _, _⟩
    · rfl
    · rfl

end Carries

/-! ## 3. Between two operations -/

/-- **What a packer keeps between two operations**, if none was refused by its sink: it carries fewer
    values than a group, or is finished and empty. At width zero it has nothing to keep. -/
inductive Resting (p : Packer) : Prop
  | idle (zero : p.width.bits = 0)
  | carrying {w : BitWidth} {vs : List UInt32} (h : p.Carries w vs)
      (room : vs.length < w.groupValues)
  | closed (finished : p.finished = true) (register : p.register = 0) (held : p.held = 0)

theorem resting_new (w : BitWidth) : (Packer.new w).Resting := by
  rcases Nat.eq_zero_or_pos w.bits with zero | positive
  · exact .idle zero
  · exact .carrying (carries_new positive) (w.group_bounds positive).1

section Width

variable {result : Except PackingError Unit}

theorem flush_width {n : Nat} (ran : p.flush n s = (result, p', s')) : p'.width = p.width := by
  unfold flush at ran
  split at ran
  · cases ran
    rfl
  · cases ran
    rfl

theorem write_width {v : UInt32} (ran : p.write v s = (result, p', s')) :
    p'.width = p.width := by
  unfold write at ran
  split at ran
  · cases ran
    rfl
  · split at ran
    · rw [flush_width ran, absorb_width]
    · cases ran
      exact absorb_width p v

theorem finish_width (ran : p.finish s = (result, p', s')) : p'.width = p.width := by
  unfold finish at ran
  split at ran
  · cases ran
    rfl
  · split at ran
    · cases ran
      rfl
    · rcases flushed : p.align.flush p.usedBytes.toNat s with ⟨outcome, q, t⟩
      have same : q.width = p.align.width := flush_width flushed
      rw [flushed] at ran
      cases outcome with
      | ok _ =>
        cases ran
        exact same
      | error e =>
        cases ran
        exact same

end Width

namespace Resting

variable {result : Except PackingError Unit}

/-- **A write that is not refused by the sink.** -/
theorem write {v : UInt32} (h : p.Resting) (ran : p.write v s = (result, p', s'))
    (taken : ∀ fault, result ≠ .error (.sink fault)) : p'.Resting := by
  cases h with
  | idle zero => exact .idle (by rw [write_width ran, zero])
  | @carrying w vs h room =>
    by_cases full : vs.length + 1 = w.groupValues
    · rcases sent : putAll s (Bits.packed w.bits (vs ++ [v])) with ⟨fault | _, t⟩
      · rw [h.write_of_full_error full sent] at ran
        cases ran
        exact absurd rfl (taken fault)
      · rw [h.write_of_full_ok full sent] at ran
        cases ran
        exact .carrying (h.absorb_full full v).1.emptied (w.group_bounds h.positive).1
    · have more : vs.length + 1 < w.groupValues := by omega
      rw [h.write_of_room more] at ran
      cases ran
      refine .carrying (h.absorb room v) ?_
      rwa [List.length_append, List.length_singleton]
  | closed finished register held =>
    rw [write_of_finished finished] at ran
    cases ran
    exact .closed finished register held

/-- **A finish that is not refused by the sink.** -/
theorem finish (h : p.Resting) (ran : p.finish s = (result, p', s'))
    (taken : ∀ fault, result ≠ .error (.sink fault)) : p'.Resting := by
  cases h with
  | idle zero => exact .idle (by rw [finish_width ran, zero])
  | @carrying w vs h room =>
    rcases sent : putAll s (Bits.packed w.bits vs) with ⟨fault | _, t⟩
    · rw [h.finish_of_error sent] at ran
      cases ran
      exact absurd rfl (taken fault)
    · rw [h.finish_of_ok sent] at ran
      cases ran
      exact .closed rfl rfl rfl
  | closed finished register held =>
    rw [finish_of_finished finished] at ran
    cases ran
    exact .closed finished register held

/-- **Less than a group is held.** -/
theorem held_lt (h : p.Resting) (positive : 0 < p.width.bits) :
    p.held.toNat < p.width.groupValues := by
  cases h with
  | idle zero => exact absurd zero (Nat.pos_iff_ne_zero.1 positive)
  | carrying h room =>
    rw [h.held, h.width]
    exact room
  | closed _ _ held =>
    rw [held]
    exact (p.width.group_bounds positive).1

/-- **The register has no bit above those of the values held.** -/
theorem register_lt (h : p.Resting) (positive : 0 < p.width.bits) :
    p.register.toNat < 2 ^ (p.held.toNat * p.width.bits) := by
  cases h with
  | idle zero => exact absurd zero (Nat.pos_iff_ne_zero.1 positive)
  | carrying h room =>
    rw [h.held, h.width]
    exact h.register_lt
  | closed _ register _ =>
    rw [register]
    exact Nat.two_pow_pos _

/-- **Every step of the next operation goes well**, on any sink. -/
theorem watched (h : p.Resting) (positive : 0 < p.width.bits) (s : σ) :
    (∀ v, p.writeWatched v s = some (p.write v s)) ∧ p.finishWatched s = some (p.finish s) := by
  cases h with
  | idle zero => exact absurd zero (Nat.pos_iff_ne_zero.1 positive)
  | carrying h room => exact ⟨fun v => h.writeWatched_eq room v s, h.finishWatched_eq s⟩
  | closed finished _ _ =>
    refine ⟨fun v => ?_, ?_⟩
    · rw [write_of_finished finished, writeWatched, if_pos finished]
    · rw [finish_of_finished finished, finishWatched, if_pos finished]

end Resting

end Packer

/-! ## 4. Sessions -/

namespace PackSession

variable {σ κ : Type} [Sink σ] {obey : σ → κ → Option Bytes × σ} {x : PackSession σ}

/-- **One action keeps the packer within its bounds**, if the sink refuses no byte of it. -/
theorem resting_perform (h : x.packer.Resting) (action : PackAction κ)
    (taken : ∀ fault, (x.perform obey action).1 ≠ .error (.sink fault)) :
    (x.perform obey action).2.packer.Resting := by
  cases action with
  | write v =>
    rcases ran : x.packer.write v x.sink with ⟨result, p, sink⟩
    rw [perform_write ran] at taken ⊢
    exact h.write ran fun fault refused => taken fault (by rw [refused]; rfl)
  | finish =>
    rcases ran : x.packer.finish x.sink with ⟨result, p, sink⟩
    rw [perform_finish ran] at taken ⊢
    exact h.finish ran fun fault refused => taken fault (by rw [refused]; rfl)
  | putByte b =>
    simp only [perform]
    split
    · exact h
    · exact h
  | renew width =>
    cases renewed : BitWidth.ofUInt32 width with
    | ok w =>
      rw [perform_renew_ok renewed]
      exact Packer.resting_new w
    | error e =>
      rw [perform_renew_error renewed]
      exact h
  | order o => exact h

/-- **A session in which no byte is refused** keeps the packer within its bounds. -/
theorem resting_run (obey : σ → κ → Option Bytes × σ) (x : PackSession σ)
    (h : x.packer.Resting) (actions : List (PackAction κ))
    (taken : ∀ report ∈ (x.run obey actions).1, ∀ fault, report.result ≠ .error (.sink fault)) :
    (x.run obey actions).2.packer.Resting := by
  induction actions generalizing x with
  | nil => exact h
  | cons action actions ih =>
    have first : ∀ fault, (x.perform obey action).1 ≠ .error (.sink fault) :=
      taken (x.step obey action).1 (List.mem_cons_self ..)
    exact ih (x.step obey action).2 (resting_perform h action first)
      fun report member => taken report (List.mem_cons_of_mem _ member)

end PackSession

end PackedInts
