import PackedInts.Proofs.Packing.Bounds
import PackedInts.Proofs.Unpacking.Bounds

/-!
# Registers and counters stay in their words

A packer and an unpacker use words of fixed size as if they were numbers. They may: in every session, up
to the first byte that a sink refuses and whatever a source does, their counters stay within a group and
their registers within its bytes, and no step of an operation goes wrong that an operation would not
report.

* **`run_within_bounds`** -- the bounds at any point of any session, and every step of what is done
  next.
-/

namespace PackedInts

/-- **Registers and counters stay in their words.** A group of the positive width `w` has at most 56
    bits.

    A session of packing began with a packer of any width; `actions` were done, and the sink refused no
    byte. If its packer has the width `w` now, then it holds less than a group, and its register has no
    bit above those of the values that it holds. Whatever is done next, and whatever the sink does then,
    every step goes well: no shift is by 64 bits or more, none moves a bit out at the top of the word,
    no difference wraps, and a register that is flushed has no bit above those of a group.

    A session of unpacking began with an unpacker of any width, and `actions` were done; the source may
    do whatever it does. If its unpacker has the width `w` now, then its counters are within a group, and
    the register has no bit above those of a group and none below those of the bytes loaded. If a read
    was tried, and the unpacker was not replaced since, then the bytes loaded are those that the values
    read out of the group reach into. Every step of the next read goes well, whatever the source does
    then: no shift is by 64 bits or more, no difference wraps, and no byte meets a bit that is set. -/
theorem run_within_bounds {σ κ τ ι : Type} [Sink σ] [Source τ] {w : BitWidth}
    (positive : 0 < w.bits) :
    8 * w.groupBytes ≤ 56 ∧
    (∀ (obey : σ → κ → Option Bytes × σ) (first : BitWidth) (sink : σ)
        (actions : List (PackAction κ)) (reports : List PackReport) (last : PackSession σ),
      (PackSession.mk (.new first) sink).run obey actions = (reports, last) →
      (∀ report ∈ reports, ∀ fault, report.result ≠ .error (.sink fault)) →
      last.packer.width = w →
      last.packer.held.toNat < w.groupValues ∧
      last.packer.register.toNat < 2 ^ (last.packer.held.toNat * w.bits) ∧
      ∀ s : σ, (∀ v, last.packer.writeWatched v s = some (last.packer.write v s)) ∧
        last.packer.finishWatched s = some (last.packer.finish s)) ∧
    (∀ (obey : τ → ι → τ) (first : BitWidth) (source : τ) (actions : List (UnpackAction ι))
        (reports : List UnpackReport) (last : UnpackSession τ),
      (UnpackSession.mk (.new first) source).run obey actions = (reports, last) →
      last.unpacker.width = w →
      last.unpacker.remaining ≤ w.groupValues ∧
      last.unpacker.loaded ≤ w.groupBytes ∧
      last.unpacker.register.toNat < 2 ^ (8 * w.groupBytes) ∧
      (∀ j < 8 * (w.groupBytes - last.unpacker.loaded),
        last.unpacker.register.toNat.testBit j = false) ∧
      (∀ before after, actions = before ++ .read :: after →
        (∀ width, .renew width ∈ after → 8 < width.toNat) →
        last.unpacker.loaded
          = byteCount ((w.groupValues - last.unpacker.remaining) * w.bits)) ∧
      ∀ s : τ, last.unpacker.readWatched s = some (last.unpacker.read s)) := by
  refine ⟨w.eight_mul_groupBytes_le, ?_, ?_⟩
  · intro obey first sink actions reports last ran taken width
    subst width
    have kept := PackSession.resting_run obey ⟨.new first, sink⟩ (Packer.resting_new first) actions
      (by rw [ran]; exact taken)
    rw [ran] at kept
    exact ⟨kept.held_lt positive, kept.register_lt positive, kept.watched positive⟩
  · intro obey first source actions reports last ran width
    subst width
    have kept := UnpackSession.resting_run obey ⟨.new first, source⟩ rfl actions
      (congrArg Prod.snd ran)
    refine ⟨kept.remaining_le, kept.loaded_le, kept.register_lt, fun _ => kept.testBit_register,
      ?_, kept.readWatched_eq positive⟩
    intro before after split refused
    rw [split] at ran
    exact (UnpackSession.atWork_run obey ⟨.new first, source⟩ rfl before after refused
      (congrArg Prod.snd ran) positive).loaded_eq

/-- A packer of three bits has one value behind its group; an unpacker of three bits is held up by a
    fault of its source before the second byte. -/
theorem run_within_bounds_three_bits :
    ∃ (reports : List PackReport) (packing : PackSession MemorySink)
        (answers : List UnpackReport) (unpacking : UnpackSession ScriptedSource),
      (PackSession.mk (.new ⟨3, by decide⟩) MemorySink.empty).run MemorySink.obey
        [.write 5, .write 3, .write 2, .write 7, .write 0, .write 1, .write 6, .write 4, .write 7]
        = (reports, packing) ∧
      (∀ report ∈ reports, ∀ fault, report.result ≠ .error (.sink fault)) ∧
      packing.packer.width = ⟨3, by decide⟩ ∧ packing.packer.held = 1 ∧
      packing.packer.register.toNat < 2 ^ (packing.packer.held.toNat * 3) ∧
      packing.packer.finishWatched packing.sink = some (packing.packer.finish packing.sink) ∧
      (UnpackSession.mk (.new ⟨3, by decide⟩) (ScriptedSource.ofLists [1] [] [0xAD, 0x70])).run
        ScriptedSource.obey [.read, .read, .read] = (answers, unpacking) ∧
      unpacking.unpacker.width = ⟨3, by decide⟩ ∧ unpacking.unpacker.remaining = 6 ∧
      unpacking.unpacker.loaded = byteCount ((8 - unpacking.unpacker.remaining) * 3) ∧
      unpacking.unpacker.readWatched unpacking.source
        = some (unpacking.unpacker.read unpacking.source) := by
  obtain ⟨reports, packing, packed, taken, width, held⟩ : ∃ reports packing,
      (PackSession.mk (.new ⟨3, by decide⟩) MemorySink.empty).run MemorySink.obey
        [.write 5, .write 3, .write 2, .write 7, .write 0, .write 1, .write 6, .write 4, .write 7]
        = (reports, packing) ∧ (∀ report ∈ reports, report.result = .ok none) ∧
      packing.packer.width = ⟨3, by decide⟩ ∧ packing.packer.held = 1 :=
    ⟨_, _, rfl, by decide, rfl, rfl⟩
  obtain ⟨answers, unpacking, unpacked, width', remaining⟩ : ∃ answers unpacking,
      (UnpackSession.mk (.new ⟨3, by decide⟩) (ScriptedSource.ofLists [1] [] [0xAD, 0x70])).run
        ScriptedSource.obey [.read, .read, .read] = (answers, unpacking) ∧
      unpacking.unpacker.width = ⟨3, by decide⟩ ∧ unpacking.unpacker.remaining = 6 :=
    ⟨_, _, rfl, rfl, rfl⟩
  have accepted : ∀ report ∈ reports, ∀ fault, report.result ≠ .error (.sink fault) := by
    intro report member fault refused
    rw [taken report member] at refused
    cases refused
  obtain ⟨-, packs, unpacks⟩ := @run_within_bounds MemorySink MemorySink.Order ScriptedSource
    Empty _ _ ⟨3, by decide⟩ (by decide)
  obtain ⟨-, register, next⟩ := packs _ _ _ _ _ _ packed accepted width
  obtain ⟨-, -, -, -, counters, read⟩ := unpacks _ _ _ _ _ _ unpacked width'
  exact ⟨reports, packing, answers, unpacking, packed, accepted, width, held, register,
    (next packing.sink).2, unpacked, width', remaining, counters [.read, .read] [] rfl nofun,
    read unpacking.source⟩

/-- Behind a refused byte there are no such bounds: a ninth value of three bits is one too many, and a
    finish takes a difference that wraps. -/
example : ((PackSession.mk (.new ⟨3, by decide⟩) (ScriptedSink.closedAt [0])).run ScriptedSink.obey
    (List.replicate 9 (.write 5))).2.packer.finishWatched MemorySink.empty = none := rfl

end PackedInts
