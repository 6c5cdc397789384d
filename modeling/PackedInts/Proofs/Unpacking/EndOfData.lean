import PackedInts.Session.Unpacking

/-!
# The end of a stream and its failures

A stream that delivers nothing may be at the end of its data, or it may have failed. The source over
it tells the two apart by the state bits alone, and these may be set and cleared from outside at any
moment. Only the stream itself says that its data are at their end, so the bit of the end is set at
no other place; this is what makes the answer right.

* `StreamSource.Polls` -- the ways in which an attempt on a stream goes;
* `StreamDeed` -- what is done to a stream;
* `StreamSource.Has` -- what a stream keeps, whatever is done to it;
* `StreamSource.Has.poll`, `StreamSource.Has.step`, `StreamSource.Has.run` -- an attempt keeps it,
  and so does a deed, and any number of them;
* **`run_stream_then_poll`** -- what an attempt on a stream comes to, after any deeds.
-/

namespace PackedInts

/-! ## 1. One attempt -/

namespace StreamSource

/-- **How an attempt on a stream goes.** -/
inductive Polls (s : StreamSource) : Except SourceFault (Option UInt8) × StreamSource → Prop
  /-- A good stream delivers its next byte. -/
  | delivers {b : UInt8} {rest : Bytes} (good : s.state.good = true)
      (sound : s.breaksAfter ≠ some 0) (next : s.rest = b :: rest) :
      Polls s (.ok (some b), { s with breaksAfter := s.breaksAfter.map (· - 1), rest := rest })
  /-- A good stream meets the end of its data. -/
  | ends (good : s.state.good = true) (sound : s.breaksAfter ≠ some 0) (empty : s.rest = []) :
      Polls s (.ok none, { s with state := (s.state.raise .atEnd).raise .failed })
  /-- The buffer of a good stream breaks. -/
  | breaks (good : s.state.good = true) (here : s.breaksAfter = some 0) :
      Polls s (.error .streamFailed, { s with state := (s.state.raise .broken).raise .failed })
  /-- The stream met the end of its data before. -/
  | hasEnded (bad : s.state.good = false) (ended : s.state.atEnd = true)
      (sound : s.state.broken = false) :
      Polls s (.ok none, { s with state := s.state.raise .failed })
  /-- The stream failed before. -/
  | refuses (bad : s.state.good = false) (unclear : s.state.broken = true ∨ s.state.atEnd = false) :
      Polls s (.error .streamFailed, { s with state := s.state.raise .failed })

/-- **Every attempt goes in one of these ways.** -/
theorem polls (s : StreamSource) : s.Polls (poll s) := by
  cases good : s.state.good with
  | true =>
    obtain ⟨state, breaksAfter, rest⟩ := s
    obtain rfl : state = .clear := StreamState.good_iff.1 good
    by_cases here : breaksAfter = some 0
    · subst here
      exact .breaks rfl rfl
    · cases rest with
      | nil =>
        rw [poll_of_unfetched (fetch_of_good_nil rfl here rfl) rfl rfl]
        exact .ends rfl here rfl
      | cons b rest =>
        rw [poll_of_fetch (fetch_of_good_cons rfl here rfl)]
        exact .delivers rfl here rfl
  | false =>
    have fetched := fetch_of_not_good good
    by_cases unclear : s.state.broken = true ∨ s.state.atEnd = false
    · rw [poll_of_unclear fetched unclear]
      exact .refuses good unclear
    · rw [not_or, Bool.not_eq_true, Bool.not_eq_false] at unclear
      rw [poll_of_unfetched fetched unclear.2 unclear.1]
      exact .hasEnded good unclear.2 unclear.1

/-! ## 2. What a stream keeps -/

/-- **What a stream keeps, whatever is done to it**: the bytes delivered so far and those left are
    all its bytes, its buffer breaks where it did at the start, and the bit of the end is set only
    where no byte is left. -/
structure Has (bytes : Bytes) (breaksAt : Option Nat) (delivered : Bytes) (s : StreamSource) :
    Prop where
  content : delivered ++ s.rest = bytes
  breaks : s.breaksAfter.map (delivered.length + ·) = breaksAt
  ended : s.state.atEnd = true → s.rest = []

theorem has_new (bytes : Bytes) (breaksAt : Option Nat) :
    Has bytes breaksAt [] (new bytes breaksAt) where
  content := rfl
  breaks := by simp [new]
  ended := nofun

namespace Has

variable {bytes delivered : Bytes} {breaksAt : Option Nat} {s : StreamSource}

/-- The bits may change as they like, but for that of the end. -/
theorem withState (h : s.Has bytes breaksAt delivered) {state : StreamState}
    (ended : state.atEnd = true → s.rest = []) :
    Has bytes breaksAt delivered { s with state := state } :=
  ⟨h.content, h.breaks, ended⟩

/-- **An attempt keeps it**: a byte that is delivered comes behind those before, and where none is
    delivered nothing is lost. -/
theorem poll (h : s.Has bytes breaksAt delivered)
    {outcome : Except SourceFault (Option UInt8) × StreamSource} (goes : s.Polls outcome) :
    (∃ b, outcome.1 = .ok (some b) ∧ outcome.2.Has bytes breaksAt (delivered ++ [b])) ∨
      (outcome.1 = .ok none ∨ outcome.1 = .error .streamFailed) ∧
        outcome.2.Has bytes breaksAt delivered := by
  cases goes with
  | @delivers b rest good sound next =>
    refine .inl ⟨b, rfl, ?_, ?_, fun atEnd => ?_⟩
    · rw [← h.content, next, List.append_assoc]
      rfl
    · rw [← h.breaks, Option.map_map]
      refine Option.map_congr fun n left => ?_
      have further : n ≠ 0 := fun zero => sound (by rw [← zero]; exact left)
      rw [List.length_append, List.length_singleton, Function.comp_apply]
      omega
    · rw [StreamState.good_iff.1 good] at atEnd
      cases atEnd
  | ends good sound empty => exact .inr ⟨.inl rfl, h.withState fun _ => empty⟩
  | breaks good here => exact .inr ⟨.inr rfl, h.withState h.ended⟩
  | hasEnded bad ended sound => exact .inr ⟨.inl rfl, h.withState h.ended⟩
  | refuses bad unclear => exact .inr ⟨.inr rfl, h.withState h.ended⟩

end Has

end StreamSource

/-! ## 3. Deeds -/

/-- What is done to a stream past any unpacker. -/
inductive StreamDeed
  /-- A byte is asked for. -/
  | ask
  /-- The bit of a failure is set from outside. -/
  | raiseFailed
  /-- The bit of a broken buffer is set from outside. -/
  | raiseBroken
  /-- All bits are cleared. -/
  | clear
  deriving DecidableEq, Repr

def StreamDeed.action : StreamDeed → UnpackAction StreamSource.Order
  | .ask => .takeByte
  | .raiseFailed => .order (.raise .failed)
  | .raiseBroken => .order (.raise .broken)
  | .clear => .order .clear

/-- The byte that an action took past the unpacker, if it took one. -/
def UnpackReport.taken (report : UnpackReport) : Bytes :=
  match report.result with
  | .ok (.byte (some b)) => [b]
  | _ => []

/-- The bytes that were taken past the unpackers of a session, in order. -/
def bytesTaken (reports : List UnpackReport) : Bytes :=
  reports.flatMap UnpackReport.taken

namespace StreamSource.Has

variable {bytes delivered : Bytes} {breaksAt : Option Nat} {session : UnpackSession StreamSource}

/-- **One deed keeps it.** -/
theorem step (h : session.source.Has bytes breaksAt delivered) (deed : StreamDeed) :
    (session.step obey deed.action).2.source.Has bytes breaksAt
      (delivered ++ (session.step obey deed.action).1.taken) := by
  obtain ⟨u, s⟩ := session
  have nothing : delivered = delivered ++ [] := (List.append_nil delivered).symm
  cases deed with
  | ask =>
    simp only [StreamDeed.action, UnpackSession.step, UnpackSession.perform]
    rcases attempt : PackedInts.poll s with ⟨answer, s'⟩
    rcases h.poll (attempt ▸ s.polls) with ⟨b, rfl, next⟩ | ⟨rfl | rfl, same⟩
    · exact next
    · exact nothing ▸ same
    · exact nothing ▸ same
  | raiseFailed => exact nothing ▸ h.withState h.ended
  | raiseBroken => exact nothing ▸ h.withState h.ended
  | clear => exact nothing ▸ h.withState nofun

/-- **Any number of deeds keeps it.** -/
theorem run (h : session.source.Has bytes breaksAt delivered) (deeds : List StreamDeed) :
    (session.run obey (deeds.map StreamDeed.action)).2.source.Has bytes breaksAt
      (delivered ++ bytesTaken (session.run obey (deeds.map StreamDeed.action)).1) := by
  induction deeds generalizing session delivered with
  | nil => exact (List.append_nil delivered).symm ▸ h
  | cons deed deeds ih =>
    have next := ih (h.step deed)
    rw [List.append_assoc] at next
    exact next

end StreamSource.Has

/-- **The end of the data is never confused with a failure.** The stream holds `bytes` and its buffer
    breaks at some byte, or never; bytes are asked for, the bits of a failure are set and all bits
    are cleared, in any order. The bytes delivered by then are the first ones of all, and whatever is
    asked for next is answered rightly: a byte is the next one; an end is reported only if all bytes
    were delivered and the stream is not broken; anything else is a fault, and takes nothing. If no
    bit is set, a byte is left and the buffer does not break at it, then it is delivered. -/
theorem run_stream_then_poll (bytes : Bytes) (breaksAt : Option Nat) (u : Unpacker)
    (deeds : List StreamDeed) :
    ∃ reports last answer next,
      (UnpackSession.mk u (StreamSource.new bytes breaksAt)).run StreamSource.obey
        (deeds.map StreamDeed.action) = (reports, last) ∧
      bytesTaken reports ++ last.source.rest = bytes ∧
      poll last.source = (answer, next) ∧
      (∀ b, answer = .ok (some b) → last.source.rest = b :: next.rest) ∧
      (answer = .ok none → bytesTaken reports = bytes ∧ next.rest = last.source.rest ∧
        last.source.state.broken = false ∧ next.state.broken = false) ∧
      (∀ fault, answer = .error fault → fault = .streamFailed ∧ next.rest = last.source.rest) ∧
      (last.source.state = .clear → (bytesTaken reports).length < bytes.length →
        breaksAt ≠ some (bytesTaken reports).length →
        answer = .ok bytes[(bytesTaken reports).length]?) := by
  have start : (UnpackSession.mk u (StreamSource.new bytes breaksAt)).source.Has bytes breaksAt [] :=
    StreamSource.has_new bytes breaksAt
  have holds := start.run deeds
  generalize (UnpackSession.mk u (StreamSource.new bytes breaksAt)).run StreamSource.obey
    (deeds.map StreamDeed.action) = outcome at holds
  obtain ⟨reports, last⟩ := outcome
  obtain ⟨content, breaks, ended⟩ := holds
  rw [List.nil_append] at content breaks
  have goes := last.source.polls
  rcases attempt : poll last.source with ⟨answer, next⟩
  rw [attempt] at goes
  refine ⟨reports, last, answer, next, rfl, content, attempt, ?_⟩
  have all : last.source.rest = [] → bytesTaken reports = bytes := by
    intro empty
    rw [← content, empty, List.append_nil]
  cases goes with
  | delivers good sound rest =>
    refine ⟨?_, nofun, nofun, fun _ _ _ => ?_⟩
    · rintro b ⟨⟩
      exact rest
    · rw [← content, rest, List.getElem?_append_right (Nat.le_refl _), Nat.sub_self]
      rfl
  | ends good sound empty =>
    have clear := StreamState.good_iff.1 good
    refine ⟨nofun, fun _ => ⟨all empty, rfl, ?_, ?_⟩, nofun, fun _ more _ => ?_⟩
    · rw [clear]
      rfl
    · rw [clear]
      rfl
    · rw [all empty] at more
      exact absurd more (Nat.lt_irrefl _)
  | breaks good here =>
    refine ⟨nofun, nofun, ?_, fun _ _ elsewhere => ?_⟩
    · rintro fault ⟨⟩
      exact ⟨rfl, rfl⟩
    · rw [here] at breaks
      exact absurd breaks.symm elsewhere
  | hasEnded bad atEnd sound =>
    refine ⟨nofun, fun _ => ⟨all (ended atEnd), rfl, sound, sound⟩, nofun, fun clear => ?_⟩
    rw [clear] at bad
    cases bad
  | refuses bad unclear =>
    refine ⟨nofun, nofun, ?_, fun clear => ?_⟩
    · rintro fault ⟨⟩
      exact ⟨rfl, rfl⟩
    · rw [clear] at bad
      cases bad

/-- A stream of two bytes whose buffer breaks at the second: the failure stays one after the bits
    are cleared, and no byte is lost. A sound stream delivers the second byte, and then it is at its
    end. -/
theorem run_stream_then_poll_two_bytes :
    (∃ reports last answer next,
      (UnpackSession.mk (.new ⟨8, by decide⟩) (StreamSource.new [7, 9] (some 1))).run
        StreamSource.obey ([StreamDeed.ask, .ask, .clear].map StreamDeed.action)
        = (reports, last) ∧
      bytesTaken reports = [7] ∧ poll last.source = (answer, next) ∧
      answer = .error .streamFailed ∧ next.rest = last.source.rest) ∧
    (∃ reports last answer next,
      (UnpackSession.mk (.new ⟨8, by decide⟩) (StreamSource.new [7, 9] none)).run
        StreamSource.obey ([StreamDeed.ask, .raiseBroken, .ask, .clear].map StreamDeed.action)
        = (reports, last) ∧
      bytesTaken reports = [7] ∧ poll last.source = (answer, next) ∧ answer = .ok (some 9)) ∧
    ∃ reports last answer next,
      (UnpackSession.mk (.new ⟨8, by decide⟩) (StreamSource.new [7, 9] none)).run
        StreamSource.obey ([StreamDeed.ask, .ask, .ask].map StreamDeed.action)
        = (reports, last) ∧
      bytesTaken reports = [7, 9] ∧ poll last.source = (answer, next) ∧ answer = .ok none := by
  refine ⟨?_, ?_, ?_⟩
  · obtain ⟨reports, last, answer, next, run, -, attempt, -, -, fault, -⟩ :=
      run_stream_then_poll [7, 9] (some 1) (.new ⟨8, by decide⟩) [.ask, .ask, .clear]
    cases run
    cases attempt
    exact ⟨_, _, _, _, rfl, rfl, rfl, rfl, (fault _ rfl).2⟩
  · obtain ⟨reports, last, answer, next, run, -, attempt, -, -, -, delivered⟩ :=
      run_stream_then_poll [7, 9] none (.new ⟨8, by decide⟩) [.ask, .raiseBroken, .ask, .clear]
    cases run
    exact ⟨_, _, _, _, rfl, rfl, attempt, delivered rfl (by decide) nofun⟩
  · obtain ⟨reports, last, answer, next, run, -, attempt, -, ended, -, -⟩ :=
      run_stream_then_poll [7, 9] none (.new ⟨8, by decide⟩) [.ask, .ask, .ask]
    cases run
    cases attempt
    exact ⟨_, _, _, _, rfl, (ended rfl).1, rfl, rfl⟩

end PackedInts
