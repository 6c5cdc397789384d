import PackedInts.Session.Packing
import PackedInts.Proofs.Packing.Layout

/-!
# Sessions of packing in memory

Packers take turns on one sink, bytes are written past them, and the buffer is handed over in
between. The ledger of a session keeps what an observer of its actions notes: the values and the
bytes of every packer, and all bytes in the order in which they were emitted.

* `Turn` -- one packer's part in a session;
* `Ledger`, `Ledger.note` -- what is noted of a session, action by action;
* `Turn.Matches`, `Ledger.Describes` -- the ledger says what the session's state is;
* `Ledger.Describes.step`, `Ledger.Describes.run` -- one action keeps this, and so does a run;
* **`run_in_memory`** -- every packer's bytes and the whole stream, at any point of any session.
-/

namespace PackedInts

/-! ## 1. What a packer has sent -/

/-- **The packed bytes of the settled values are the leading whole groups** of all packed bytes. -/
theorem Bits.packed_settled (w : BitWidth) (vs : List UInt32) :
    packed w.bits (w.settled vs)
      = (packed w.bits vs).take (vs.length / w.groupValues * w.groupBytes) := by
  have split := w.packed_append vs []
  rw [List.append_nil] at split
  rw [split, ← w.length_packed_settled, List.take_left]

/-- One packer's part in a session. -/
structure Turn where
  width : BitWidth
  /-- The values that it took, in order. -/
  taken : List UInt32
  finished : Bool
  /-- Its bytes that reached the sink, in order. -/
  sent : Bytes
  deriving DecidableEq, Repr

namespace Turn

def new (w : BitWidth) : Turn :=
  ⟨w, [], false, []⟩

/-- A packer takes values until it is finished. -/
def take (t : Turn) (v : UInt32) : Turn :=
  if t.finished then t else { t with taken := t.taken ++ [v] }

def close (t : Turn) : Turn :=
  { t with finished := true }

def send (t : Turn) (bytes : Bytes) : Turn :=
  { t with sent := t.sent ++ bytes }

/-- What a packer has to have sent: whole groups only, and the rest when it is finished. -/
def due (t : Turn) : Bytes :=
  Bits.packed t.width.bits (if t.finished then t.taken else t.width.settled t.taken)

theorem due_of_finished {t : Turn} (h : t.finished = true) :
    t.due = Bits.packed t.width.bits t.taken := by
  unfold due
  rw [if_pos h]

theorem due_of_active {t : Turn} (h : t.finished = false) :
    t.due = Bits.packed t.width.bits (t.width.settled t.taken) := by
  unfold due
  rw [if_neg (ne_true_of_eq_false h)]

theorem take_of_active {t : Turn} (h : t.finished = false) (v : UInt32) :
    t.take v = { t with taken := t.taken ++ [v] } :=
  if_neg (ne_true_of_eq_false h)

theorem due_of_bits_eq_zero {t : Turn} (h : t.width.bits = 0) : t.due = [] := by
  unfold due
  rw [h]
  exact Bits.packed_zero_width _

theorem due_new (w : BitWidth) : (new w).due = [] := by
  have none : w.settled ([] : List UInt32) = [] := List.take_nil
  show Bits.packed w.bits (w.settled []) = []
  rw [none, Bits.packed_nil]

/-! ## 2. A packer at its turn -/

/-- **The packer is where its turn says**: it counted the values taken, it carries those behind the
    last whole group, and at width zero it holds none. -/
structure Matches (t : Turn) (p : Packer) : Prop where
  width : p.width = t.width
  finished : p.finished = t.finished
  accepted : p.accepted = t.taken.length.toUInt64
  carries : t.finished = false → 0 < t.width.bits → p.Carries t.width (t.width.pending t.taken)
  idle : t.width.bits = 0 → p.held = 0

theorem matches_new (w : BitWidth) : (new w).Matches (.new w) where
  width := rfl
  finished := rfl
  accepted := rfl
  carries := fun _ positive => by
    have none : w.pending ([] : List UInt32) = [] := List.drop_nil
    show (Packer.new w).Carries w (w.pending [])
    rw [none]
    exact Packer.carries_new positive
  idle := fun _ => rfl

variable {σ : Type} [Sink σ] {t : Turn} {p : Packer}

/-- One value is a list of one. -/
theorem write_of_writeAll {p' : Packer} {v : UInt32} {s s' : σ}
    (h : p.writeAll s [v] = (.ok (), p', s')) : p.write v s = (.ok (), p', s') := by
  unfold Packer.writeAll at h
  rcases hw : p.write v s with ⟨result, q, r⟩
  rw [hw] at h
  cases result with
  | ok _ => exact h
  | error e => cases h

/-- The number of values with one more. -/
theorem toUInt64_length_append (vs : List UInt32) (v : UInt32) :
    (vs ++ [v]).length.toUInt64 = vs.length.toUInt64 + [v].length.toUInt64 := by
  rw [List.length_append]
  exact UInt64.ofNat_add _ _

/-- **A value that is taken**: what becomes due with it is sent, on every sink that takes it. -/
theorem Matches.write (h : t.Matches p) (active : t.finished = false) (v : UInt32) :
    ∃ bytes, (t.take v).due = t.due ++ bytes ∧
      ∀ s s' : σ, putAll s bytes = (.ok (), s') →
        ∃ p', p.write v s = (.ok (), p', s') ∧ (t.take v).Matches p' := by
  have working : p.finished = false := h.finished.trans active
  rw [take_of_active active]
  have still : ({ t with taken := t.taken ++ [v] } : Turn).finished = false := active
  rcases Nat.eq_zero_or_pos t.width.bits with zero | positive
  · refine ⟨[], ?_, ?_⟩
    · rw [due_of_bits_eq_zero zero]
      exact due_of_bits_eq_zero zero
    · intro s s' taken
      cases taken
      have narrow : p.width.bits = 0 := by rw [h.width]; exact zero
      refine ⟨_, write_of_writeAll (p.writeAll_of_bits_eq_zero narrow working [v] s), ?_⟩
      refine ⟨h.width, h.finished, ?_, fun _ positive => ?_, fun _ => h.idle zero⟩
      · rw [toUInt64_length_append, ← h.accepted]
      · exact absurd zero (Nat.pos_iff_ne_zero.1 positive)
  · have carried := h.carries active positive
    have room := BitWidth.length_pending_lt positive t.taken
    refine ⟨Bits.packed t.width.bits (t.width.settled (t.width.pending t.taken ++ [v])), ?_, ?_⟩
    · rw [due_of_active still, due_of_active active]
      show Bits.packed t.width.bits (t.width.settled (t.taken ++ [v])) = _
      rw [BitWidth.settled_append positive, Bits.packed_append (t.width.eight_dvd_settled t.taken)]
    · intro s s' taken
      obtain ⟨p', run, carries, accepted⟩ := carried.writeAll_of_ok room taken
      refine ⟨p', write_of_writeAll run, carries.width, carries.active.trans active.symm, ?_,
        fun _ _ => ?_, fun zero => absurd zero (Nat.pos_iff_ne_zero.1 positive)⟩
      · rw [toUInt64_length_append, accepted, h.accepted]
      · show p'.Carries t.width (t.width.pending (t.taken ++ [v]))
        rw [BitWidth.pending_append positive]
        exact carries

/-- **A finish sends what is left**, on every sink that takes it. -/
theorem Matches.finish (h : t.Matches p) (active : t.finished = false) :
    ∃ bytes, t.close.due = t.due ++ bytes ∧
      ∀ s s' : σ, putAll s bytes = (.ok (), s') →
        ∃ p', p.finish s = (.ok (), p', s') ∧ t.close.Matches p' := by
  have working : p.finished = false := h.finished.trans active
  have closed : t.close.finished = true := rfl
  rcases Nat.eq_zero_or_pos t.width.bits with zero | positive
  · refine ⟨[], ?_, ?_⟩
    · rw [due_of_bits_eq_zero zero]
      exact due_of_bits_eq_zero zero
    · intro s s' taken
      cases taken
      refine ⟨{ p with finished := true }, ?_, h.width, rfl, h.accepted,
        fun active => absurd closed (ne_true_of_eq_false active),
        fun _ => h.idle zero⟩
      unfold Packer.finish
      rw [if_neg (ne_true_of_eq_false working), if_pos (h.idle zero)]
  · have carried := h.carries active positive
    refine ⟨Bits.packed t.width.bits (t.width.pending t.taken), ?_, ?_⟩
    · rw [due_of_finished closed, due_of_active active]
      show Bits.packed t.width.bits t.taken = _
      rw [← Bits.packed_append (t.width.eight_dvd_settled t.taken), t.width.settled_append_pending]
    · intro s s' taken
      exact ⟨_, carried.finish_of_ok taken, h.width, rfl, h.accepted,
        fun active => absurd closed (ne_true_of_eq_false active), fun _ => rfl⟩

end Turn

/-! ## 3. What an action does -/

namespace PackSession

variable {σ κ : Type} [Sink σ] {obey : σ → κ → Option Bytes × σ} {s : PackSession σ}

theorem perform_write {v : UInt32} {result : Except PackingError Unit} {p : Packer} {sink : σ}
    (h : s.packer.write v s.sink = (result, p, sink)) :
    s.perform obey (.write v) = (result.map fun _ => none, ⟨p, sink⟩) := by
  simp only [perform, h]

theorem perform_finish {result : Except PackingError Unit} {p : Packer} {sink : σ}
    (h : s.packer.finish s.sink = (result, p, sink)) :
    s.perform obey .finish = (result.map fun _ => none, ⟨p, sink⟩) := by
  simp only [perform, h]

theorem perform_renew_ok {width : UInt32} {w : BitWidth} (h : BitWidth.ofUInt32 width = .ok w) :
    s.perform obey (.renew width) = (.ok none, ⟨.new w, s.sink⟩) := by
  simp only [perform, h]

theorem perform_renew_error {width : UInt32} {e : PackingError}
    (h : BitWidth.ofUInt32 width = .error e) :
    s.perform obey (.renew width) = (.error e, s) := by
  simp only [perform, h]

end PackSession

/-! ## 4. Ledgers -/

/-- **What an observer notes of a session in memory.** -/
structure Ledger where
  /-- The packers that were replaced, in order. -/
  dropped : List Turn
  /-- The packer at work. -/
  turn : Turn
  /-- All bytes of the packers and all that were written past them, as they were emitted. -/
  stream : Bytes
  /-- The bytes of the buffers that were handed over, in order. -/
  released : Bytes
  deriving DecidableEq, Repr

/-- The bytes that an order handed over. -/
def PackReport.handedOver (report : PackReport) : Bytes :=
  match report.result with
  | .ok (some bytes) => bytes
  | _ => []

namespace Ledger

/-- The ledger of a session that begins with a packer of that width. -/
def new (w : BitWidth) : Ledger :=
  ⟨[], .new w, [], []⟩

/-- Notes one action by what is seen of it. -/
def note (l : Ledger) (action : PackAction MemorySink.Order) (report : PackReport) : Ledger :=
  match action with
  | .write v =>
    { l with turn := (l.turn.take v).send report.emitted, stream := l.stream ++ report.emitted }
  | .finish =>
    { l with turn := l.turn.close.send report.emitted, stream := l.stream ++ report.emitted }
  | .putByte b => { l with stream := l.stream ++ [b] }
  | .renew width =>
    match BitWidth.ofUInt32 width with
    | .ok w => { l with dropped := l.dropped ++ [l.turn], turn := .new w }
    | .error _ => l
  | .order .release => { l with released := l.released ++ report.handedOver }

/-- Notes actions in order. -/
def noteAll (l : Ledger) (entries : List (PackAction MemorySink.Order × PackReport)) : Ledger :=
  entries.foldl (fun l entry => l.note entry.1 entry.2) l

/-- The packers of a session, the one at work last. -/
def turns (l : Ledger) : List Turn :=
  l.dropped ++ [l.turn]

/-- **The ledger says what the session's state is**, and no packer has sent more or less than is
    due. -/
structure Describes (l : Ledger) (s : PackSession MemorySink) : Prop where
  packer : l.turn.Matches s.packer
  sent : ∀ t ∈ l.turns, t.sent = t.due
  stream : l.released ++ content s.sink = l.stream

variable {l : Ledger} {s : PackSession MemorySink}

theorem describes_new (w : BitWidth) : (new w).Describes ⟨.new w, MemorySink.empty⟩ where
  packer := Turn.matches_new w
  sent := by
    intro t ht
    obtain rfl := List.mem_singleton.1 ht
    exact (Turn.due_new w).symm
  stream := rfl

/-- What reached the sink in memory between two of its states. -/
theorem drop_content (s : MemorySink) (bytes : Bytes) :
    (content (MemorySink.mk (s.buffer ++ bytes.toArray))).drop (content s).length = bytes := by
  simp

/-- **The packer at work sends what becomes due.** -/
theorem Describes.emit (h : l.Describes s) {t : Turn} {p : Packer} {bytes : Bytes}
    (placed : t.Matches p) (due : t.due = l.turn.due ++ bytes) (before : t.sent = l.turn.sent) :
    ({ l with turn := t.send bytes, stream := l.stream ++ bytes } : Ledger).Describes
      ⟨p, ⟨s.sink.buffer ++ bytes.toArray⟩⟩ where
  packer := ⟨placed.width, placed.finished, placed.accepted, placed.carries, placed.idle⟩
  sent := by
    intro u hu
    rcases List.mem_append.1 hu with dropped | atWork
    · exact h.sent u (List.mem_append_left _ dropped)
    · obtain rfl := List.mem_singleton.1 atWork
      have whole := h.sent l.turn (List.mem_append_right _ (List.mem_singleton_self _))
      show t.sent ++ bytes = t.due
      rw [before, whole, due]
  stream := by
    show l.released ++ (s.sink.buffer ++ bytes.toArray).toList = l.stream ++ bytes
    rw [← h.stream, List.append_assoc]
    simp

/-- A packer that sends nothing and stays where it is leaves no trace. -/
theorem emit_nothing (l : Ledger) :
    ({ l with turn := l.turn.send [], stream := l.stream ++ [] } : Ledger) = l := by
  obtain ⟨dropped, turn, stream, released⟩ := l
  simp [Turn.send]

/-- **One action keeps the ledger true.** -/
theorem Describes.step (h : l.Describes s) (action : PackAction MemorySink.Order) :
    (l.note action (s.step MemorySink.obey action).1).Describes
      (s.step MemorySink.obey action).2 := by
  obtain ⟨p, sink⟩ := s
  have nothing : (content sink).drop (content sink).length = [] := List.drop_length
  cases action with
  | write v =>
    cases active : l.turn.finished with
    | false =>
      obtain ⟨bytes, due, sends⟩ := h.packer.write (σ := MemorySink) active v
      obtain ⟨p', written, placed⟩ := sends sink _ (MemorySink.putAll_eq sink bytes)
      have before : (l.turn.take v).sent = l.turn.sent := by rw [Turn.take_of_active active]
      simp only [PackSession.step, PackSession.perform_write written, note, drop_content]
      exact h.emit placed due before
    | true =>
      have refused := Packer.write_of_finished (h.packer.finished.trans active) v sink
      have still : l.turn.take v = l.turn := if_pos active
      simp only [PackSession.step, PackSession.perform_write refused, note, nothing, still,
        emit_nothing]
      exact h
  | finish =>
    cases active : l.turn.finished with
    | false =>
      obtain ⟨bytes, due, sends⟩ := h.packer.finish (σ := MemorySink) active
      obtain ⟨p', written, placed⟩ := sends sink _ (MemorySink.putAll_eq sink bytes)
      simp only [PackSession.step, PackSession.perform_finish written, note, drop_content]
      exact h.emit placed due rfl
    | true =>
      have ignored := Packer.finish_of_finished (h.packer.finished.trans active) sink
      have still : l.turn.close = l.turn := by
        unfold Turn.close
        rw [← active]
      simp only [PackSession.step, PackSession.perform_finish ignored, note, nothing, still,
        emit_nothing]
      exact h
  | putByte b =>
    refine ⟨h.packer, h.sent, ?_⟩
    show l.released ++ (sink.buffer.push b).toList = l.stream ++ [b]
    rw [← h.stream, Array.toList_push, List.append_assoc]
    rfl
  | renew width =>
    cases renewed : BitWidth.ofUInt32 width with
    | error e =>
      simp only [PackSession.step, PackSession.perform_renew_error renewed, note, renewed]
      exact h
    | ok w =>
      simp only [PackSession.step, PackSession.perform_renew_ok renewed, note, renewed]
      refine ⟨Turn.matches_new w, ?_, h.stream⟩
      intro t ht
      rcases List.mem_append.1 ht with before | atWork
      · exact h.sent t before
      · obtain rfl := List.mem_singleton.1 atWork
        exact (Turn.due_new w).symm
  | order o =>
    cases o with
    | release =>
      refine ⟨h.packer, h.sent, ?_⟩
      show (l.released ++ content sink) ++ [] = l.stream
      rw [List.append_nil]
      exact h.stream

/-- **A run keeps the ledger true.** -/
theorem Describes.run (h : l.Describes s) (actions : List (PackAction MemorySink.Order)) :
    (l.noteAll (actions.zip (s.run MemorySink.obey actions).1)).Describes
      (s.run MemorySink.obey actions).2 := by
  induction actions generalizing l s with
  | nil => exact h
  | cons a as ih => exact ih (h.step a)

end Ledger

/-! ## 5. Sessions -/

/-- **A session in memory, at any point.** The session began with a packer of width `w` and an empty
    buffer, and `actions` were done in it. Of the values that a packer took, the sink has got the
    packed bytes of the whole groups, or all packed bytes if the packer was finished; a packer that
    was replaced keeps to this, and one of width zero has sent nothing. The packer at work counts its
    values. The buffers that were handed over and the one at hand are the bytes of the packers and
    those written past them, in the order in which they were emitted. An active packer takes every
    value and every finish; a finished one refuses values and ignores a finish, and nothing changes.
    A width above eight is refused, and nothing changes. -/
theorem run_in_memory (w : BitWidth) (actions : List (PackAction MemorySink.Order)) :
    ∃ reports last ledger,
      (PackSession.mk (.new w) MemorySink.empty).run MemorySink.obey actions = (reports, last) ∧
      (Ledger.new w).noteAll (actions.zip reports) = ledger ∧
      (∀ t ∈ ledger.turns, ∃ bytes, pack t.taken t.width.toUInt32 = .ok bytes ∧
        (t.finished = true → t.sent = bytes) ∧
        (t.finished = false →
          t.sent = bytes.take (t.taken.length / t.width.groupValues * t.width.groupBytes)) ∧
        (t.width.bits = 0 → t.sent = [])) ∧
      (last.packer.width = ledger.turn.width ∧ last.packer.finished = ledger.turn.finished ∧
        last.packer.accepted = ledger.turn.taken.length.toUInt64) ∧
      ledger.released ++ content last.sink = ledger.stream ∧
      (ledger.turn.finished = false →
        (∀ v, (last.perform MemorySink.obey (.write v)).1 = .ok none) ∧
        (last.perform MemorySink.obey .finish).1 = .ok none) ∧
      (ledger.turn.finished = true →
        (∀ v, last.perform MemorySink.obey (.write v) = (.error .alreadyFinished, last)) ∧
        last.perform MemorySink.obey .finish = (.ok none, last)) ∧
      ∀ width : UInt32, 8 < width.toNat →
        last.perform MemorySink.obey (.renew width) = (.error (.unsupportedWidth width), last) := by
  have holds := (Ledger.describes_new w).run actions
  generalize (PackSession.mk (.new w) MemorySink.empty).run MemorySink.obey actions = outcome at *
  obtain ⟨reports, last⟩ := outcome
  generalize noted : (Ledger.new w).noteAll (actions.zip reports) = ledger at holds
  have atWork := holds.packer
  refine ⟨reports, last, ledger, rfl, noted, ?_, ?_, holds.stream, ?_, ?_, ?_⟩
  · intro t ht
    have sent := holds.sent t ht
    have supported : t.width.toUInt32.toNat ≤ 8 := by
      rw [BitWidth.toNat_toUInt32]
      exact t.width.bits_le
    refine ⟨_, pack_of_supported supported t.taken, fun finished => ?_, fun active => ?_,
      fun zero => ?_⟩
    · rw [sent, Turn.due_of_finished finished, BitWidth.toNat_toUInt32]
    · rw [sent, Turn.due_of_active active, BitWidth.toNat_toUInt32, Bits.packed_settled]
    · rw [sent, Turn.due_of_bits_eq_zero zero]
  · exact ⟨atWork.width, atWork.finished, atWork.accepted⟩
  · intro active
    refine ⟨fun v => ?_, ?_⟩
    · obtain ⟨bytes, -, sends⟩ := atWork.write (σ := MemorySink) active v
      obtain ⟨p', written, -⟩ := sends last.sink _ (MemorySink.putAll_eq last.sink bytes)
      rw [PackSession.perform_write written]
      rfl
    · obtain ⟨bytes, -, sends⟩ := atWork.finish (σ := MemorySink) active
      obtain ⟨p', written, -⟩ := sends last.sink _ (MemorySink.putAll_eq last.sink bytes)
      rw [PackSession.perform_finish written]
      rfl
  · intro finished
    have done : last.packer.finished = true := atWork.finished.trans finished
    refine ⟨fun v => ?_, ?_⟩
    · rw [PackSession.perform_write (Packer.write_of_finished done v last.sink)]
      rfl
    · rw [PackSession.perform_finish (Packer.finish_of_finished done last.sink)]
      rfl
  · intro width unsupported
    exact PackSession.perform_renew_error (BitWidth.ofUInt32_eq_error_iff.2 ⟨unsupported, rfl⟩)

/-- A packer of three bits is dropped with one value behind its group, the buffer is handed over in
    between, and a packer of five bits is finished. -/
theorem run_in_memory_two_packers :
    ∃ (reports : List PackReport) (last : PackSession MemorySink) (ledger : Ledger),
      (PackSession.mk (.new ⟨3, by decide⟩) MemorySink.empty).run MemorySink.obey
        [.write 5, .write 3, .write 2, .write 7, .write 0, .write 1, .write 6, .write 4,
          .putByte 255, .order .release, .write 7, .renew 5, .write 31, .finish, .write 1]
        = (reports, last) ∧
      ledger.dropped = [⟨⟨3, by decide⟩, [5, 3, 2, 7, 0, 1, 6, 4, 7], false, [0xAD, 0x70, 0x74]⟩] ∧
      ledger.turn = ⟨⟨5, by decide⟩, [31], true, [0xF8]⟩ ∧
      ledger.released ++ content last.sink = [0xAD, 0x70, 0x74, 255, 0xF8] ∧
      last.perform MemorySink.obey (.write 1) = (.error .alreadyFinished, last) ∧
      8 < (9 : UInt32).toNat ∧
      last.perform MemorySink.obey (.renew 9) = (.error (.unsupportedWidth 9), last) := by
  obtain ⟨reports, last, ledger, run, noted, -, -, stream, -, refused, unsupported⟩ :=
    run_in_memory ⟨3, by decide⟩ [.write 5, .write 3, .write 2, .write 7, .write 0, .write 1,
      .write 6, .write 4, .putByte 255, .order .release, .write 7, .renew 5, .write 31, .finish,
      .write 1]
  rw [show reports = _ from (congrArg Prod.fst run).symm] at noted
  have dropped : ledger.dropped
      = [⟨⟨3, by decide⟩, [5, 3, 2, 7, 0, 1, 6, 4, 7], false, [0xAD, 0x70, 0x74]⟩] := by
    rw [← noted]
    decide
  have turn : ledger.turn = ⟨⟨5, by decide⟩, [31], true, [0xF8]⟩ := by
    rw [← noted]
    decide
  have all : ledger.stream = [0xAD, 0x70, 0x74, 255, 0xF8] := by
    rw [← noted]
    decide
  exact ⟨reports, last, ledger, run, dropped, turn, stream.trans all,
    (refused (by rw [turn])).1 1, by decide, unsupported 9 (by decide)⟩

end PackedInts
