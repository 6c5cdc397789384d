import PackedInts.Proofs.Packing.Turns

/-!
# Finishing again after a refusal

A finish moves the register up to the top of its group before it sends anything, and where the sink
refuses a byte it does not move it back. The next finish moves it up again: what it sends is displaced
by the bits that were missing to the group, unless none were.

* `Packer.Carries.writeAll_cases` -- what writes leave behind, up to the first that is refused;
* `BitWidth.aligned`, `BitWidth.finishBytes` -- the number in the register after some alignments, and
  what the finish of that number sends;
* `Packer.Aligned` -- the packer carries values and was aligned so many times;
* `Packer.Aligned.finish_of_ok`, `Packer.Aligned.finish_of_error` -- what one more finish does;
* `Packer.Aligned.run_finishes` -- where a number of finishes leads;
* **`run_finish_again`** -- what every finish sends, as often as one is tried.
-/

namespace PackedInts

/-! ## 1. What writes leave behind -/

namespace Packer

variable {σ : Type} [Sink σ] {s s' : σ} {p p' : Packer} {w : BitWidth} {us vs : List UInt32}
  {result : Except PackingError Unit}

/-- **What writes leave behind**, whatever the sink does. The values taken are some whole groups and,
    behind them, those that the packer carries: fewer than a group if every value was taken, and a
    group if the last write was refused. -/
theorem Carries.writeAll_cases (h : p.Carries w us) (room : us.length < w.groupValues)
    (run : p.writeAll s vs = (result, p', s')) :
    ∃ taken rest sent kept, vs = taken ++ rest ∧ us ++ taken = sent ++ kept ∧
      w.groupValues ∣ sent.length ∧ p'.Carries w kept ∧
      p'.accepted = p.accepted + taken.length.toUInt64 ∧
      (result = .ok () → rest = [] ∧ kept.length < w.groupValues) ∧
      (result ≠ .ok () → kept.length = w.groupValues) := by
  induction vs generalizing p us s with
  | nil =>
    cases run
    exact ⟨[], [], [], us, rfl, List.append_nil us, Nat.dvd_zero _, h, (UInt64.add_zero _).symm,
      fun _ => ⟨rfl, room⟩, fun refused => absurd rfl refused⟩
  | cons v vs ih =>
    have counted : ∀ taken : List UInt32, (p.absorb v).accepted + taken.length.toUInt64
        = p.accepted + (v :: taken).length.toUInt64 := by
      intro taken
      rw [absorb_accepted, add_one_add_toUInt64, List.length_cons]
    by_cases full : us.length + 1 = w.groupValues
    · obtain ⟨carried, group⟩ := h.absorb_full full v
      rcases sent : putAll s (Bits.packed w.bits (us ++ [v])) with ⟨_ | fault, t⟩
      · rename_i fault
        rw [writeAll_cons_of_error (h.write_of_full_error full sent)] at run
        cases run
        exact ⟨[v], vs, [], us ++ [v], rfl, rfl, Nat.dvd_zero _, carried, absorb_accepted p v,
          fun taken => (nomatch taken), fun _ => group⟩
      · rw [writeAll_cons_of_ok (h.write_of_full_ok full sent)] at run
        obtain ⟨taken, rest, before, kept, rfl, groups, whole, last, accepted, ways⟩ :=
          ih carried.emptied (w.group_bounds h.positive).1 run
        rw [List.nil_append] at groups
        refine ⟨v :: taken, rest, us ++ [v] ++ before, kept, rfl, ?_, ?_, last,
          accepted.trans (counted taken), ways⟩
        · rw [groups, List.append_assoc, List.append_assoc]
          rfl
        · rw [List.length_append, group]
          exact Nat.dvd_add (Nat.dvd_refl _) whole
    · have more : us.length + 1 < w.groupValues := by omega
      rw [writeAll_cons_of_ok (h.write_of_room more v s)] at run
      obtain ⟨taken, rest, before, kept, rfl, groups, whole, last, accepted, ways⟩ :=
        ih (h.absorb room v) (by rwa [List.length_append, List.length_singleton]) run
      refine ⟨v :: taken, rest, before, kept, rfl, ?_, whole, last,
        accepted.trans (counted taken), ways⟩
      rw [List.append_cons]
      exact groups

end Packer

/-! ## 2. A register that is aligned again and again -/

namespace BitWidth

variable (w : BitWidth) (vs : List UInt32)

/-- The bits that are missing to a group behind the bits of some values. -/
def slack : Nat :=
  (w.groupValues - vs.length) * w.bits

/-- **The number in the register once the values are aligned `i` times**: moved up each time by the
    bits that are missing to the group, and cut off at the top of the register. -/
def aligned (i : Nat) : Nat :=
  Bits.toNat (Bits.ofValues w.bits vs) * 2 ^ (i * w.slack vs) % 2 ^ 64

/-- **What a finish sends that aligns the values for the `i`th time**: of the bytes that spell the
    register's low bits, as many as a group has, the leading ones, as many as hold the values. -/
def finishBytes (i : Nat) : Bytes :=
  (Bits.toBytes (Bits.ofNat (8 * w.groupBytes) (w.aligned vs i))).take
    (byteCount (vs.length * w.bits))

theorem slack_le : w.slack vs ≤ 8 * w.groupBytes := by
  rw [← w.values_mul_bits]
  exact Nat.mul_le_mul_right _ (Nat.sub_le _ _)

theorem aligned_succ (i : Nat) :
    w.aligned vs (i + 1) = w.aligned vs i * 2 ^ w.slack vs % 2 ^ 64 := by
  rw [aligned, aligned, Nat.mod_mul_mod, Nat.mul_assoc, ← Nat.pow_add, Nat.succ_mul]

/-- **Each alignment displaces the group's bits** by as many as are missing to the group. The register
    has room for more bits than a group's, so what is cut off at its top was never to be sent. -/
theorem ofNat_aligned_succ (i : Nat) :
    Bits.ofNat (8 * w.groupBytes) (w.aligned vs (i + 1))
      = (Bits.ofNat (8 * w.groupBytes) (w.aligned vs i)).drop (w.slack vs)
        ++ List.replicate (w.slack vs) false := by
  have small : 8 * w.groupBytes ≤ 64 := w.eight_mul_groupBytes_le.trans (by decide)
  rw [aligned_succ, Bits.ofNat_mod_of_le small, Bits.ofNat_mul_two_pow (w.slack_le vs)]

end BitWidth

namespace Packer

/-- **The packer carries these values and was aligned `i` times**: it is a packer that carries them
    but for its register. -/
structure Aligned (p : Packer) (i : Nat) (w : BitWidth) (vs : List UInt32) : Prop where
  width : p.width = w
  active : p.finished = false
  fits : vs.length ≤ w.groupValues
  held : p.held.toNat = vs.length
  register : p.register.toNat = w.aligned vs i

variable {σ : Type} [Sink σ] {s s' : σ} {p : Packer} {i : Nat} {w : BitWidth} {vs : List UInt32}

theorem Carries.aligned (h : p.Carries w vs) : p.Aligned 0 w vs where
  width := h.width
  active := h.active
  fits := h.fits
  held := h.held
  register := by
    rw [BitWidth.aligned, Nat.zero_mul, Nat.pow_zero, Nat.mul_one, ← h.register,
      Nat.mod_eq_of_lt p.register.toNat_lt]

namespace Aligned

/-- No more is held than a group. -/
theorem held_le (h : p.Aligned i w vs) : p.held.toNat ≤ p.width.groupValues := by
  rw [h.held, h.width]
  exact h.fits

theorem toNat_usedBytes (h : p.Aligned i w vs) :
    p.usedBytes.toNat = byteCount (vs.length * w.bits) := by
  rw [Packer.toNat_usedBytes h.held_le, h.held, h.width]

/-- **Aligned once more**, the register is moved up by the bits that are missing to the group. -/
theorem align (h : p.Aligned i w vs) : p.align.Aligned (i + 1) w vs where
  width := h.width
  active := h.active
  fits := h.fits
  held := h.held
  register := by
    have amount : w.slack vs < 64 :=
      Nat.lt_of_le_of_lt ((w.slack_le vs).trans w.eight_mul_groupBytes_le) (by decide)
    have moved : p.align.register = p.register <<< (w.slack vs).toUInt64 := by
      rw [align_of_within h.held_le, h.width, h.held, BitWidth.slack]
    rw [moved, toNat_shiftLeft_amount _ amount, h.register, BitWidth.aligned_succ]

theorem leadingBytes (h : p.Aligned i w vs) :
    p.leadingBytes (byteCount (vs.length * w.bits)) = w.finishBytes vs i := by
  have enough := w.byteCount_le_of_le h.fits
  rw [leadingBytes_eq_take p (by rwa [h.width]), h.width, h.register, BitWidth.finishBytes]

/-- A packer that holds nothing has nothing to send. -/
theorem finishBytes_of_held (h : p.Aligned i w vs) (none : p.held = 0) (j : Nat) :
    w.finishBytes vs j = [] := by
  have empty : vs.length = 0 := by
    rw [← h.held, none]
    rfl
  rw [BitWidth.finishBytes, empty, Nat.zero_mul]
  exact List.take_zero

/-- **A finish that is taken whole** sends its bytes, and finishes the packer. -/
theorem finish_of_ok (h : p.Aligned i w vs)
    (taken : putAll s (w.finishBytes vs (i + 1)) = (.ok (), s')) :
    ∃ p', p.finish s = (.ok (), p', s') ∧ p'.accepted = p.accepted ∧ p'.finished = true := by
  rw [finish, if_neg (ne_true_of_eq_false h.active)]
  by_cases none : p.held = 0
  · rw [h.finishBytes_of_held none, putAll_nil] at taken
    cases taken
    rw [if_pos none]
    exact ⟨_, rfl, rfl, rfl⟩
  · rw [← h.align.leadingBytes] at taken
    rw [if_neg none, h.toNat_usedBytes, flush_of_ok taken]
    exact ⟨_, rfl, rfl, rfl⟩

/-- **A finish that is refused** sends its bytes up to the one that is refused, and leaves the
    register as it has aligned it. -/
theorem finish_of_error (h : p.Aligned i w vs) {fault : SinkFault}
    (refused : putAll s (w.finishBytes vs (i + 1)) = (.error fault, s')) :
    p.finish s = (.error (.sink fault), p.align, s') := by
  have some : ¬ p.held = 0 := by
    intro none
    rw [h.finishBytes_of_held none, putAll_nil] at refused
    cases refused
  rw [← h.align.leadingBytes] at refused
  rw [finish, if_neg (ne_true_of_eq_false h.active), if_neg some, h.toNat_usedBytes,
    flush_of_error refused]

/-- Whatever comes of a finish, values are counted as before it, and a packer that is not finished by
    it was aligned by it. -/
theorem finish_cases (h : p.Aligned i w vs) {result : Except PackingError Unit} {p' : Packer}
    (finished : p.finish s = (result, p', s')) :
    p'.accepted = p.accepted ∧ (p'.finished = false → p'.Aligned (i + 1) w vs) := by
  rcases sent : putAll s (w.finishBytes vs (i + 1)) with ⟨_ | _, t⟩
  · rw [h.finish_of_error sent] at finished
    cases finished
    exact ⟨rfl, fun _ => h.align⟩
  · obtain ⟨q, done, accepted, closed⟩ := h.finish_of_ok sent
    rw [done] at finished
    cases finished
    exact ⟨accepted, fun active => absurd closed (ne_true_of_eq_false active)⟩

end Aligned

end Packer

/-! ## 3. A number of finishes -/

section Session

variable {σ κ : Type} [Sink σ] (obey : σ → κ → Option Bytes × σ)

/-- One more finish, behind a number of them. -/
theorem PackSession.run_finishes_succ (x : PackSession σ) (i : Nat) :
    (x.run obey (List.replicate (i + 1) .finish)).2
      = ((x.run obey (List.replicate i .finish)).2.perform obey .finish).2 := by
  rw [List.replicate_succ', run_append]
  rfl

/-- **A number of finishes** changes no count, and a packer that is not finished by any of them was
    aligned by each. -/
theorem Packer.Aligned.run_finishes {p : Packer} {w : BitWidth} {vs : List UInt32}
    (h : p.Aligned 0 w vs) (s : σ) (i : Nat) {last : PackSession σ}
    (led : ((PackSession.mk p s).run obey (List.replicate i .finish)).2 = last) :
    last.packer.accepted = p.accepted ∧
      (last.packer.finished = false → last.packer.Aligned i w vs) := by
  induction i generalizing last with
  | zero =>
    cases led
    exact ⟨rfl, fun _ => h⟩
  | succ i ih =>
    rw [PackSession.run_finishes_succ] at led
    obtain ⟨accepted, aligned⟩ := ih rfl
    generalize ((PackSession.mk p s).run obey (List.replicate i .finish)).2 = before at *
    rcases finished : before.packer.finish before.sink with ⟨result, q, t⟩
    rw [PackSession.perform_finish finished] at led
    cases led
    cases active : before.packer.finished with
    | false =>
      obtain ⟨same, next⟩ := (aligned active).finish_cases finished
      exact ⟨same.trans accepted, next⟩
    | true =>
      -- a finish that went through is not undone
      rw [Packer.finish_of_finished active] at finished
      cases finished
      exact ⟨accepted, fun working => absurd active (ne_true_of_eq_false working)⟩

/-- **A finish that is tried again and again.** Values were written to a new packer of a positive
    width until all were taken or one was refused; the sink may do whatever it does. The values
    `kept` in the packer are the last ones taken, behind whole groups: fewer than a group if all
    were taken, and a group if one was refused. Now any number `i` of finishes is tried, and then
    one more. As long as none went through, the packer is not finished, and the one more comes to
    sending `finishBytes` for `i + 1` alignments, up to the byte that is refused; it finishes the
    packer if no byte is. A finish that went through is not repeated. No finish counts a value. The
    first finish sends the right bytes, and so does every other one if a whole group is kept; else
    each sends the bits of the one before it, displaced by those that are missing to the group. -/
theorem run_finish_again {w : BitWidth} (positive : 0 < w.bits) {s₀ s : σ} {vs : List UInt32}
    {result : Except PackingError Unit} {p : Packer}
    (written : (Packer.new w).writeAll s₀ vs = (result, p, s)) :
    ∃ sent kept rest, vs = sent ++ kept ++ rest ∧ w.groupValues ∣ sent.length ∧
      p.held.toNat = kept.length ∧ p.accepted = (sent ++ kept).length.toUInt64 ∧
      p.finished = false ∧
      (result = .ok () → rest = [] ∧ kept.length < w.groupValues) ∧
      (result ≠ .ok () → kept.length = w.groupValues) ∧
      (∀ i, ∃ reports q t,
        (PackSession.mk p s).run obey (List.replicate i .finish) = (reports, ⟨q, t⟩) ∧
        q.accepted = p.accepted ∧
        (q.finished = false → ∃ outcome q' t',
          putAll t (w.finishBytes kept (i + 1)) = (outcome, t') ∧
          q.finish t = (outcome.mapError .sink, q', t') ∧ q'.accepted = p.accepted ∧
          (q'.finished = true ↔ outcome = .ok ())) ∧
        (q.finished = true → q.finish t = (.ok (), q, t))) ∧
      w.finishBytes kept 1 = Bits.packed w.bits kept ∧
      (kept.length = w.groupValues → ∀ i, w.finishBytes kept i = Bits.packed w.bits kept) ∧
      ∀ i, Bits.ofNat (8 * w.groupBytes) (w.aligned kept (i + 1))
        = (Bits.ofNat (8 * w.groupBytes) (w.aligned kept i)).drop (w.slack kept)
          ++ List.replicate (w.slack kept) false := by
  obtain ⟨taken, rest, sent, kept, rfl, groups, whole, carried, accepted, ways⟩ :=
    (Packer.carries_new positive).writeAll_cases (w.group_bounds positive).1 written
  rw [List.nil_append] at groups
  subst groups
  have start := carried.aligned
  refine ⟨sent, kept, rest, rfl, whole, carried.held, accepted.trans (UInt64.zero_add _),
    carried.active, ways.1, ways.2, ?_, ?_, ?_, w.ofNat_aligned_succ kept⟩
  · intro i
    rcases led : (PackSession.mk p s).run obey (List.replicate i .finish) with ⟨reports, q, t⟩
    obtain ⟨same, aligned⟩ := start.run_finishes obey s i (congrArg Prod.snd led)
    refine ⟨reports, q, t, rfl, same, fun active => ?_, fun finished => ?_⟩
    · rcases sending : putAll t (w.finishBytes kept (i + 1)) with ⟨fault | _, t'⟩
      · refine ⟨.error fault, q.align, t', rfl, (aligned active).finish_of_error sending, same, ?_⟩
        exact ⟨fun closed => absurd closed (ne_true_of_eq_false active), fun taken => nomatch taken⟩
      · obtain ⟨q', done, count, closed⟩ := (aligned active).finish_of_ok sending
        exact ⟨.ok (), q', t', rfl, done, count.trans same, fun _ => rfl, fun _ => closed⟩
    · exact Packer.finish_of_finished finished t
  · rw [← start.align.leadingBytes, carried.leadingBytes_align]
  · intro full i
    have still : p.Aligned i w kept := by
      induction i with
      | zero => exact start
      | succ i ih =>
        rw [← carried.align_of_full full]
        exact ih.align
    have group : byteCount (kept.length * w.bits) = w.groupBytes := by
      rw [full, w.values_mul_bits]
      exact byteCount_eight_mul _
    rw [← still.leadingBytes, group, carried.leadingBytes_of_full full]

end Session

/-- Seven values of five bits lack five bits to a group. Two finishes are refused, the first at its
    second byte and the next at its fourth, and the third one, displaced by ten bits, goes through. -/
theorem run_finish_again_seven_values :
    ∃ (p : Packer) (s : ScriptedSink), 0 < (⟨5, by decide⟩ : BitWidth).bits ∧
      (Packer.new ⟨5, by decide⟩).writeAll (ScriptedSink.closedAt [1, 5]) [1, 2, 3, 4, 5, 6, 7]
        = (.ok (), p, s) ∧
      ∃ reports q t q' t',
        (PackSession.mk p s).run ScriptedSink.obey [.finish, .finish] = (reports, ⟨q, t⟩) ∧
        q.finished = false ∧ content t = [0x08, 0x10, 0xC8, 0x53] ∧
        q.finish t = (.ok (), q', t') ∧
        content t' = [0x08, 0x10, 0xC8, 0x53, 0x19, 0x0A, 0x63, 0x80, 0x00] ∧
        q'.finished = true ∧ q'.accepted = 7 := by
  have written : (Packer.new ⟨5, by decide⟩).writeAll (ScriptedSink.closedAt [1, 5])
      [1, 2, 3, 4, 5, 6, 7] = (.ok (), _, _) := rfl
  refine ⟨_, _, by decide, written, ?_⟩
  obtain ⟨sent, kept, rest, split, -, held, -, -, all, -, tries, -⟩ :=
    run_finish_again ScriptedSink.obey (w := ⟨5, by decide⟩) (by decide) written
  obtain ⟨rfl, -⟩ := all rfl
  -- all seven values are kept
  obtain rfl : sent = [] := by
    have lengths := congrArg List.length split
    rw [List.append_nil, List.length_append, ← held] at lengths
    exact List.length_eq_zero_iff.1 (Nat.add_right_cancel (lengths.symm.trans (Nat.zero_add 7).symm))
  rw [List.append_nil, List.nil_append] at split
  subst split
  obtain ⟨reports, q, t, run, count, tried, -⟩ := tries 2
  obtain rfl : _ = q := congrArg (fun x => x.2.packer) run
  obtain rfl : _ = t := congrArg (fun x => x.2.sink) run
  obtain ⟨outcome, q', t', sending, done, accepted, closed⟩ := tried rfl
  obtain rfl : _ = outcome := congrArg Prod.fst sending
  obtain rfl : _ = t' := congrArg Prod.snd sending
  exact ⟨reports, _, _, q', _, run, rfl, by decide, done, by decide, closed.2 rfl, accepted⟩

end PackedInts
