import PackedInts.Proofs.Packing.Turns

/-!
# Writes after a refused group

A group is sent by the write that brings the number of held values up to the group's. Where the sink
refuses it, the group stays in the register and the next value takes the number past it. The test is
for equality, so from there on nothing is sent until the number, a 32-bit word, has wrapped.

* `Packer.Overfull` -- the packer holds so many values more than a group;
* `Packer.overfull_of_refused` -- a write whose group is refused leaves such a packer;
* `Packer.Overfull.holdsGroup_iff` -- when the test for a whole group succeeds again;
* `Packer.Overfull.write_of_lt` -- the writes before the number wraps;
* **`run_writes_after_refusal`** -- what is seen of the writes after a refused group.
-/

namespace PackedInts

namespace Packer

/-! ## 1. More values than a group -/

/-- **The packer holds `k` values more than a group**, as far as a 32-bit word can say. -/
structure Overfull (p : Packer) (k : Nat) : Prop where
  positive : 0 < p.width.bits
  active : p.finished = false
  held : p.held.toNat = (p.width.groupValues + k) % 2 ^ 32

section Sink

variable {σ : Type} [Sink σ] {s s' : σ} {p p' : Packer} {k : Nat}

/-- **A write whose group is refused** leaves the whole group in the register. -/
theorem overfull_of_refused {v : UInt32} {fault : SinkFault}
    (refused : p.write v s = (.error (.sink fault), p', s')) : p'.Overfull 0 := by
  unfold write at refused
  cases active : p.finished with
  | true =>
    rw [if_pos active] at refused
    cases refused
  | false =>
    rw [if_neg (ne_true_of_eq_false active)] at refused
    by_cases group : (p.absorb v).holdsGroup = true
    · rw [if_pos group] at refused
      rcases sent : putAll s ((p.absorb v).leadingBytes p.width.groupBytes) with ⟨_ | _, t⟩
      · rw [flush_of_error sent] at refused
        cases refused
        obtain ⟨positive, full⟩ := of_decide_eq_true group
        have few := ((p.absorb v).width.group_bounds (Nat.pos_of_ne_zero positive)).2.1
        refine ⟨Nat.pos_of_ne_zero positive, (absorb_finished p v).trans active, ?_⟩
        rw [full, Nat.add_zero, Nat.mod_eq_of_lt (Nat.lt_of_le_of_lt few (by decide))]
      · rw [flush_of_ok sent] at refused
        cases refused
    · rw [if_neg group] at refused
      cases refused

namespace Overfull

/-- One value more is held, and the word may wrap. -/
theorem absorb (h : p.Overfull k) (v : UInt32) : (p.absorb v).Overfull (k + 1) where
  positive := by
    rw [absorb_width]
    exact h.positive
  active := (absorb_finished p v).trans h.active
  held := by
    have counted : (p.absorb v).held = p.held + 1 := by
      rw [Packer.absorb, if_neg (Nat.pos_iff_ne_zero.1 h.positive)]
    rw [counted, UInt32.toNat_add, h.held, absorb_width, UInt32.toNat_one, Nat.mod_add_mod,
      Nat.add_assoc]

/-- **The register counts as a whole group again** only where the number has wrapped. -/
theorem holdsGroup_iff (h : p.Overfull k) : p.holdsGroup = true ↔ 2 ^ 32 ∣ k := by
  have few := (p.width.group_bounds h.positive).2.1
  have wraps : (p.width.groupValues + k) % 2 ^ 32 = p.width.groupValues ↔ 2 ^ 32 ∣ k := by omega
  rw [holdsGroup, decide_eq_true_iff, h.held, wraps]
  exact and_iff_right (Nat.pos_iff_ne_zero.1 h.positive)

/-- **Before the number wraps a value is taken and nothing is sent.** -/
theorem write_of_lt (h : p.Overfull k) (few : k + 1 < 2 ^ 32) (v : UInt32) (s : σ) :
    p.write v s = (.ok (), p.absorb v, s) := by
  have short : ¬ (p.absorb v).holdsGroup = true := by
    rw [(h.absorb v).holdsGroup_iff]
    exact Nat.not_dvd_of_pos_of_lt (Nat.succ_pos k) few
  rw [write, if_neg (ne_true_of_eq_false h.active), if_neg short]

end Overfull

end Sink

end Packer

/-! ## 2. Writes one after the other -/

section Session

variable {σ κ : Type} [Sink σ] (obey : σ → κ → Option Bytes × σ)

/-- What is seen of `n` writes that are taken and send nothing, from a packer on that had taken
    `accepted` values. -/
def silentReports (w : BitWidth) (accepted : UInt64) (n : Nat) : List PackReport :=
  (List.range n).map fun i =>
    { result := .ok none
      emitted := []
      accepted := accepted + (i + 1).toUInt64
      finished := false
      width := w }

theorem silentReports_succ (w : BitWidth) (accepted : UInt64) (n : Nat) :
    silentReports w accepted (n + 1)
      = ⟨.ok none, [], accepted + 1, false, w⟩ :: silentReports w (accepted + 1) n := by
  rw [silentReports, map_range_succ]
  refine congrArg _ (List.map_congr_left fun i _ => ?_)
  rw [add_one_add_toUInt64]

/-- **A run of writes before the number wraps** sends nothing, and counts every value. -/
theorem Packer.Overfull.run_writes {p : Packer} {k : Nat} {vs : List UInt32} (h : p.Overfull k)
    (few : k + vs.length < 2 ^ 32) (s : σ) :
    ∃ q, (PackSession.mk p s).run obey (vs.map .write)
        = (silentReports p.width p.accepted vs.length, ⟨q, s⟩) ∧
      q.Overfull (k + vs.length) := by
  induction vs generalizing p k with
  | nil => exact ⟨p, rfl, h⟩
  | cons v vs ih =>
    rw [List.length_cons] at few ⊢
    have written := h.write_of_lt (by omega) v s
    have step : (PackSession.mk p s).step obey (.write v)
        = (⟨.ok none, [], p.accepted + 1, false, p.width⟩, ⟨p.absorb v, s⟩) := by
      have nothing : (content s).drop (content s).length = [] := List.drop_length
      have taken : (PackSession.mk p s).perform obey (.write v)
          = ((Except.ok ()).map fun _ => none, ⟨p.absorb v, s⟩) := PackSession.perform_write written
      simp only [PackSession.step, taken, nothing, Packer.absorb_accepted, Packer.absorb_finished,
        Packer.absorb_width, h.active]
      rfl
    obtain ⟨q, run, last⟩ := ih (h.absorb v) (by omega)
    rw [Packer.absorb_accepted, Packer.absorb_width] at run
    refine ⟨q, ?_, ?_⟩
    · rw [List.map_cons, PackSession.run, step, silentReports_succ]
      simp only [run]
    · rwa [Nat.add_right_comm, Nat.add_assoc] at last

/-- **Writes after a refused group.** A write has just met the sink's fault, at whatever byte of its
    group, in whatever state of packer and sink. Of fewer than `2 ^ 32` further writes each is taken
    and counted, the packer is not finished by any, and none sends a byte: the sink is left as it
    was. -/
theorem run_writes_after_refusal {p p' : Packer} {s s' : σ} {v : UInt32} {fault : SinkFault}
    (refused : p.write v s = (.error (.sink fault), p', s')) {vs : List UInt32}
    (few : vs.length < 2 ^ 32) :
    ∃ reports q, (PackSession.mk p' s').run obey (vs.map .write) = (reports, ⟨q, s'⟩) ∧
      reports.length = vs.length ∧
      ∀ i (h : i < reports.length), reports[i].result = .ok none ∧ reports[i].emitted = [] ∧
        reports[i].accepted = p'.accepted + (i + 1).toUInt64 ∧ reports[i].finished = false := by
  rw [← Nat.zero_add vs.length] at few
  obtain ⟨q, run, -⟩ := (Packer.overfull_of_refused refused).run_writes obey few s'
  have len : (silentReports p'.width p'.accepted vs.length).length = vs.length := by
    rw [silentReports, List.length_map, List.length_range]
  refine ⟨_, q, run, len, fun i h => ?_⟩
  simp only [silentReports, List.getElem_map, List.getElem_range]
  exact ⟨trivial, trivial, trivial, trivial⟩

end Session

/-- The eighth value of three bits completes a group, of which the sink refuses the second byte. Three
    more values are taken and lost on the way, though the sink would take every further byte. -/
theorem run_writes_after_refusal_three_bits :
    ∃ (p p' : Packer) (s s' : ScriptedSink),
      (Packer.new ⟨3, by decide⟩).writeAll (ScriptedSink.closedAt [1]) [5, 3, 2, 7, 0, 1, 6]
        = (.ok (), p, s) ∧
      p.write 4 s = (.error (.sink .closed), p', s') ∧ content s' = [0xAD] ∧
      ([1, 2, 3] : List UInt32).length < 2 ^ 32 ∧
      ∃ reports q, (PackSession.mk p' s').run ScriptedSink.obey [.write 1, .write 2, .write 3]
          = (reports, ⟨q, s'⟩) ∧
        reports.map (fun r => (r.accepted, r.emitted)) = [(9, []), (10, []), (11, [])] := by
  obtain ⟨p, p', s, s', written, refused, stored, count⟩ :
      ∃ (p p' : Packer) (s s' : ScriptedSink),
        (Packer.new ⟨3, by decide⟩).writeAll (ScriptedSink.closedAt [1]) [5, 3, 2, 7, 0, 1, 6]
          = (.ok (), p, s) ∧
        p.write 4 s = (.error (.sink .closed), p', s') ∧ content s' = [0xAD] ∧ p'.accepted = 8 :=
    ⟨_, _, _, _, rfl, rfl, by decide, by decide⟩
  have few : ([1, 2, 3] : List UInt32).length < 2 ^ 32 := by decide
  obtain ⟨reports, q, run, len, seen⟩ := run_writes_after_refusal ScriptedSink.obey refused few
  refine ⟨p, p', s, s', written, refused, stored, few, reports, q, run, ?_⟩
  match reports, len, seen with
  | [a, b, c], _, seen =>
    obtain ⟨-, sent, counted, -⟩ := seen 0 (by simp)
    have first : (a.accepted, a.emitted) = (9, []) :=
      Prod.ext (counted.trans (by rw [count]; decide)) sent
    obtain ⟨-, sent, counted, -⟩ := seen 1 (by simp)
    have second : (b.accepted, b.emitted) = (10, []) :=
      Prod.ext (counted.trans (by rw [count]; decide)) sent
    obtain ⟨-, sent, counted, -⟩ := seen 2 (by simp)
    have third : (c.accepted, c.emitted) = (11, []) :=
      Prod.ext (counted.trans (by rw [count]; decide)) sent
    simp only [List.map_cons, List.map_nil, first, second, third]

end PackedInts
