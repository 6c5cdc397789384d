import PackedInts.Proofs.Agree
import PackedInts.Proofs.Packing.Turns

/-!
# Streams of limited capacity

An output stream does not count the bytes that are offered to it. Its buffer takes some and refuses
the next one, and from there on a sticky bit keeps every other byte out. To whoever packs into it, it
is a sink that fails by the number of the attempt: at none that its buffer has room for, and at every
later one.

* `Sending` -- what an action comes to on any sink: one run of bytes, and what is left either way;
* `PackSession.perform_eq` -- every action of a session without orders is one;
* `TakesAlike` -- two kinds of sinks of which one cannot be told from the other by an attempt, but for
  the fault that it reports;
* `TakesAlike.putAll`, `TakesAlike.perform`, `TakesAlike.run` -- then neither can a run of bytes, an
  action or a whole session;
* `StreamSink.InStep` -- what a stream keeps that is used beside a scripted sink;
* `StreamSink.run_of_not_good`, `StreamSink.run_refused` -- a stream that refused a byte stays as it is;
* **`run_stream_of_capacity`** -- every session on the stream is seen as it is on the script.
-/

namespace PackedInts

/-! ## 1. What an action comes to -/

/-- **What an action comes to on any sink**: a run of bytes is sent, and the answer and the packer
    depend on the sink only by whether it takes them all. -/
structure Sending where
  bytes : Bytes
  /-- The answer if the bytes are taken. -/
  answer : Except PackingError Unit
  /-- The packer if they are taken, and if they are not. -/
  taken : Packer
  refused : Packer
  /-- The answer is never a fault of the sink, which takes the bytes. -/
  own : ∀ fault, answer ≠ .error (.sink fault) := by nofun

section Sending

variable {σ : Type} [Sink σ]

def Sending.carryOut (x : Sending) (s : σ) : Except PackingError Unit × Packer × σ :=
  match putAll s x.bytes with
  | (.ok (), s') => (x.answer, x.taken, s')
  | (.error fault, s') => (.error (.sink fault), x.refused, s')

namespace Packer

def writing (p : Packer) (v : UInt32) : Sending :=
  if p.finished then { bytes := [], answer := .error .alreadyFinished, taken := p, refused := p }
  else if (p.absorb v).holdsGroup then
    { bytes := (p.absorb v).leadingBytes p.width.groupBytes
      answer := .ok ()
      taken := (p.absorb v).emptied
      refused := p.absorb v }
  else { bytes := [], answer := .ok (), taken := p.absorb v, refused := p.absorb v }

def finishing (p : Packer) : Sending :=
  if p.finished then { bytes := [], answer := .ok (), taken := p, refused := p }
  else if p.held = 0 then
    { bytes := [], answer := .ok (), taken := { p with finished := true }, refused := p }
  else
    { bytes := p.align.leadingBytes p.usedBytes.toNat
      answer := .ok ()
      taken := { p.align.emptied with finished := true }
      refused := p.align }

/-- What each action of a session comes to, where the sink takes no orders. -/
def doing (p : Packer) : PackAction Empty → Sending
  | .write v => p.writing v
  | .finish => p.finishing
  | .putByte b => { bytes := [b], answer := .ok (), taken := p, refused := p }
  | .renew width =>
    if h : width.toNat ≤ 8 then
      { bytes := [], answer := .ok (), taken := .new ⟨width.toNat, h⟩, refused := p }
    else { bytes := [], answer := .error (.unsupportedWidth width), taken := p, refused := p }

theorem write_eq_carryOut (p : Packer) (v : UInt32) (s : σ) :
    p.write v s = (p.writing v).carryOut s := by
  unfold write writing
  split
  · rfl
  · split
    · unfold flush Sending.carryOut
      rcases putAll s ((p.absorb v).leadingBytes p.width.groupBytes) with ⟨_ | _, t⟩ <;> rfl
    · rfl

theorem finish_eq_carryOut (p : Packer) (s : σ) : p.finish s = p.finishing.carryOut s := by
  unfold finish finishing
  split
  · rfl
  · split
    · rfl
    · unfold flush Sending.carryOut
      rcases putAll s (p.align.leadingBytes p.usedBytes.toNat) with ⟨_ | _, t⟩ <;> rfl

end Packer

/-- **Every action of a session comes to one run of bytes.** -/
theorem PackSession.perform_eq (obey : σ → Empty → Option Bytes × σ) (p : Packer) (s : σ)
    (a : PackAction Empty) {answer : Except PackingError Unit} {q : Packer} {t : σ}
    (h : (p.doing a).carryOut s = (answer, q, t)) :
    (PackSession.mk p s).perform obey a = (answer.map fun _ => none, ⟨q, t⟩) := by
  cases a with
  | write v =>
    have written : p.write v s = (answer, q, t) := (p.write_eq_carryOut v s).trans h
    exact perform_write written
  | finish =>
    have finished : p.finish s = (answer, q, t) := (p.finish_eq_carryOut s).trans h
    exact perform_finish finished
  | putByte b =>
    have sent : Sending.carryOut
        { bytes := [b], answer := .ok (), taken := p, refused := p } s = (answer, q, t) := h
    unfold Sending.carryOut putAll at sent
    unfold PackSession.perform
    rcases attempt : put s b with ⟨_ | _, s'⟩
    · simp only [attempt] at sent ⊢
      cases sent
      rfl
    · simp only [attempt, putAll_nil] at sent ⊢
      cases sent
      rfl
  | renew width =>
    by_cases supported : width.toNat ≤ 8
    · have made : p.doing (.renew width)
          = { bytes := [], answer := .ok (), taken := .new ⟨width.toNat, supported⟩, refused := p } :=
        dif_pos supported
      rw [made] at h
      cases h
      exact perform_renew_ok (dif_pos supported)
    · have kept : p.doing (.renew width)
          = { bytes := [], answer := .error (.unsupportedWidth width), taken := p, refused := p } :=
        dif_neg supported
      rw [kept] at h
      cases h
      exact perform_renew_error (dif_neg supported)
  | order o => cases o

end Sending

/-! ## 2. Sinks that take alike -/

/-- The error with another fault in the place of the sink's. -/
def PackingError.withFault (fault : SinkFault) : PackingError → PackingError
  | .sink _ => .sink fault
  | e => e

def PackReport.withFault (fault : SinkFault) (report : PackReport) : PackReport :=
  { report with result := report.result.mapError (PackingError.withFault fault) }

section Alike

variable {σ τ : Type} [Sink σ] [Sink τ] {fault : SinkFault} {R : σ → τ → Prop} {s : σ} {t : τ}

/-- **Related sinks take alike**: they hold the same bytes, an attempt on the one is taken where it is
    on the other, and it leaves them related. Where a byte is refused, the one reports this fault,
    and the other may report any. -/
structure TakesAlike (fault : SinkFault) (R : σ → τ → Prop) : Prop where
  content : ∀ {s t}, R s t → content s = content t
  put : ∀ {s t}, R s t → ∀ b, AgreeVia (Except.mapError fun _ => fault) R (put s b) (put t b)

/-- Two sessions have the same packer, on related sinks. -/
structure PackSession.Beside (R : σ → τ → Prop) (x : PackSession σ) (y : PackSession τ) : Prop where
  packer : x.packer = y.packer
  sink : R x.sink y.sink

namespace TakesAlike

open PackSession

variable (alike : TakesAlike fault R)

include alike

theorem putAll (h : R s t) (bs : Bytes) :
    AgreeVia (Except.mapError fun _ => fault) R (putAll s bs) (putAll t bs) := by
  induction bs generalizing s t with
  | nil => exact ⟨.ok (), s, t, rfl, rfl, h⟩
  | cons b bs ih =>
    obtain ⟨answer, s', t', left, right, next⟩ := alike.put h b
    cases answer with
    | ok _ =>
      rw [putAll_cons_of_ok left, putAll_cons_of_ok right]
      exact ih next
    | error other =>
      rw [putAll_cons_of_error left, putAll_cons_of_error right]
      exact ⟨.error other, s', t', rfl, rfl, next⟩

theorem carryOut (h : R s t) (x : Sending) :
    AgreeVia (Except.mapError (PackingError.withFault fault)) (Agree R) (x.carryOut s)
      (x.carryOut t) := by
  obtain ⟨outcome, s', t', left, right, next⟩ := alike.putAll h x.bytes
  unfold Sending.carryOut
  rw [left, right]
  cases outcome with
  | ok _ =>
    -- what is answered where the bytes are taken is no fault of the sink
    have same : x.answer.mapError (PackingError.withFault fault) = x.answer := by
      rcases result : x.answer with e | _
      · cases e with
        | sink other => exact absurd result (x.own other)
        | _ => rfl
      · rfl
    refine ⟨x.answer, (x.taken, s'), (x.taken, t'), ?_, rfl, Agree.intro x.taken next⟩
    rw [same]
    rfl
  | error other =>
    exact ⟨.error (.sink other), (x.refused, s'), (x.refused, t'), rfl, rfl,
      Agree.intro x.refused next⟩

variable {obey : σ → Empty → Option Bytes × σ} {obey' : τ → Empty → Option Bytes × τ}
  {x : PackSession σ} {y : PackSession τ}

/-- **An action comes to the same**, but for the fault. -/
theorem perform (h : Beside R x y) (a : PackAction Empty) :
    AgreeVia (Except.mapError (PackingError.withFault fault)) (Beside R) (x.perform obey a)
      (y.perform obey' a) := by
  obtain ⟨p, s⟩ := x
  obtain ⟨_, t⟩ := y
  obtain ⟨rfl, related⟩ := h
  obtain ⟨answer, _, _, left, right, q, s', t', rfl, rfl, next⟩ :=
    alike.carryOut related (p.doing a)
  rw [perform_eq obey p s a left, perform_eq obey' p t a right]
  refine ⟨answer.map fun _ => none, ⟨q, s'⟩, ⟨q, t'⟩, ?_, rfl, rfl, next⟩
  cases answer <;> rfl

/-- So it is seen in the same way, but for the fault. -/
theorem step (h : Beside R x y) (a : PackAction Empty) :
    AgreeVia (PackReport.withFault fault) (Beside R) (x.step obey a) (y.step obey' a) := by
  obtain ⟨result, x', y', left, right, next⟩ := alike.perform h a
  unfold PackSession.step
  rw [left, right]
  dsimp only
  rw [alike.content h.sink, alike.content next.sink, next.packer]
  exact ⟨_, x', y', rfl, rfl, next⟩

/-- **A whole session is seen in the same way**, action by action, but for the fault. -/
theorem run (h : Beside R x y) (actions : List (PackAction Empty)) :
    AgreeVia (List.map (PackReport.withFault fault)) (Beside R) (x.run obey actions)
      (y.run obey' actions) := by
  induction actions generalizing x y with
  | nil => exact AgreeVia.intro _ [] h
  | cons a as ih =>
    obtain ⟨report, x', y', left, right, next⟩ := alike.step h a
    obtain ⟨reports, x'', y'', left', right', last⟩ := ih next
    unfold PackSession.run
    rw [left, right]
    dsimp only
    rw [left', right']
    exact AgreeVia.intro (List.map (PackReport.withFault fault)) (report :: reports) last

end TakesAlike

end Alike

/-! ## 3. A stream beside a script -/

namespace StreamSink

/-- A stream whose state and capacity are left alone takes no orders. -/
def obeyNone (_s : StreamSink) (order : Empty) : Option Bytes × StreamSink :=
  nomatch order

/-- **The stream is in step with the script**: they hold the same bytes, the script fails at every
    attempt but the first `capacity`, and either the stream is good and every attempt was taken, or
    it is not and the attempts that are taken are over. -/
structure InStep (capacity : Nat) (s : StreamSink) (t : ScriptedSink) : Prop where
  capacity_eq : s.capacity = some capacity
  script : ∀ i, t.fails i = decide (capacity ≤ i)
  buffer : s.buffer = t.buffer
  pace : s.state.good = true ∧ t.attempts = s.buffer.size ∨
    s.state.good = false ∧ capacity ≤ t.attempts

variable {capacity : Nat} {s s' : StreamSink} {t : ScriptedSink}

theorem inStep_new (capacity : Nat) :
    InStep capacity (new (some capacity)) (ScriptedSink.new fun i => capacity ≤ i) :=
  ⟨rfl, fun _ => rfl, rfl, .inl ⟨rfl, rfl⟩⟩

/-- **An attempt on a stream comes to what it comes to on the script.** -/
theorem InStep.put (h : InStep capacity s t) (b : UInt8) :
    AgreeVia (Except.mapError fun _ => .streamFailed) (InStep capacity) (put s b) (put t b) := by
  rcases h.pace with ⟨good, count⟩ | ⟨bad, past⟩
  · have room : s.hasRoom = decide (s.buffer.size < capacity) := by
      rw [hasRoom, h.capacity_eq]
    by_cases free : s.buffer.size < capacity
    · have taken : t.fails t.attempts = false := by
        rw [h.script, count]
        exact decide_eq_false (Nat.not_le_of_lt free)
      rw [put_of_room good (by rw [room]; exact decide_eq_true free),
        ScriptedSink.put_of_not_fails taken]
      refine ⟨.ok (), _, _, rfl, rfl, h.capacity_eq, h.script, ?_, .inl ⟨good, ?_⟩⟩
      · rw [h.buffer]
      · rw [count, Array.size_push]
    · have refused : t.fails t.attempts = true := by
        rw [h.script, count]
        exact decide_eq_true (Nat.le_of_not_lt free)
      rw [put_of_full good (by rw [room]; exact decide_eq_false free),
        ScriptedSink.put_of_fails refused]
      refine ⟨.error .closed, _, _, rfl, rfl, h.capacity_eq, h.script, h.buffer, .inr ⟨?_, ?_⟩⟩
      · exact StreamState.good_raise _ _
      · exact (Nat.le_of_not_lt free).trans (count ▸ Nat.le_succ _)
  · have refused : t.fails t.attempts = true := by
      rw [h.script]
      exact decide_eq_true past
    rw [put_of_not_good bad, ScriptedSink.put_of_fails refused]
    refine ⟨.error .closed, _, _, rfl, rfl, h.capacity_eq, h.script, h.buffer, .inr ⟨?_, ?_⟩⟩
    · exact StreamState.good_raise _ _
    · exact past.trans (Nat.le_succ _)

theorem takesAlike (capacity : Nat) : TakesAlike .streamFailed (InStep capacity) :=
  ⟨fun h => congrArg Array.toList h.buffer, fun h => h.put⟩

/-! ## 4. A stream that refused a byte -/

/-- A stream that refuses a byte is not good afterwards. -/
theorem not_good_of_put {b : UInt8} {fault : SinkFault} (refused : Sink.put s b = (.error fault, s')) :
    s'.state.good = false := by
  cases good : s.state.good with
  | false =>
    rw [put_of_not_good good] at refused
    cases refused
    exact StreamState.good_raise _ _
  | true =>
    cases room : s.hasRoom with
    | false =>
      rw [put_of_full good room] at refused
      cases refused
      exact StreamState.good_raise _ _
    | true =>
      rw [put_of_room good room] at refused
      cases refused

theorem not_good_of_putAll {bs : Bytes} {fault : SinkFault}
    (refused : putAll s bs = (.error fault, s')) : s'.state.good = false := by
  induction bs generalizing s with
  | nil => cases refused
  | cons b bs ih =>
    rcases attempt : Sink.put s b with ⟨_ | _, t⟩
    · rw [putAll_cons_of_error attempt] at refused
      cases refused
      exact not_good_of_put attempt
    · rw [putAll_cons_of_ok attempt] at refused
      exact ih refused

/-- **A stream that is not good** stays so and keeps its bytes, whatever is sent to it. -/
theorem putAll_of_not_good (bad : s.state.good = false) {bs : Bytes} {result : Except SinkFault Unit}
    (sent : putAll s bs = (result, s')) : s'.state.good = false ∧ s'.buffer = s.buffer := by
  cases bs with
  | nil =>
    cases sent
    exact ⟨bad, rfl⟩
  | cons b bs =>
    rw [putAll_cons_of_error (put_of_not_good bad b)] at sent
    cases sent
    exact ⟨StreamState.good_raise _ _, rfl⟩

variable {x : PackSession StreamSink}

theorem perform_of_not_good (bad : x.sink.state.good = false) (a : PackAction Empty) :
    (x.perform obeyNone a).2.sink.state.good = false ∧
      (x.perform obeyNone a).2.sink.buffer = x.sink.buffer := by
  obtain ⟨p, s⟩ := x
  rcases sent : putAll s (p.doing a).bytes with ⟨_ | _, t⟩
  · rw [PackSession.perform_eq obeyNone p s a (by rw [Sending.carryOut, sent])]
    exact putAll_of_not_good bad sent
  · rw [PackSession.perform_eq obeyNone p s a (by rw [Sending.carryOut, sent])]
    exact putAll_of_not_good bad sent

/-- **So does a whole session leave it.** -/
theorem run_of_not_good (bad : x.sink.state.good = false) (actions : List (PackAction Empty)) :
    (x.run obeyNone actions).2.sink.state.good = false ∧
      (x.run obeyNone actions).2.sink.buffer = x.sink.buffer := by
  induction actions generalizing x with
  | nil => exact ⟨bad, rfl⟩
  | cons a as ih =>
    obtain ⟨worse, same⟩ := perform_of_not_good bad a
    obtain ⟨worst, kept⟩ := ih worse
    exact ⟨worst, kept.trans same⟩

/-- An action that meets a fault of the stream leaves it not good. -/
theorem perform_refused {a : PackAction Empty} {fault : SinkFault}
    (refused : (x.perform obeyNone a).1 = .error (.sink fault)) :
    (x.perform obeyNone a).2.sink.state.good = false := by
  obtain ⟨p, s⟩ := x
  rcases sent : putAll s (p.doing a).bytes with ⟨_ | _, t⟩
  · rw [PackSession.perform_eq obeyNone p s a (by rw [Sending.carryOut, sent])]
    exact not_good_of_putAll sent
  · -- the bytes were taken, so the fault is not the stream's
    rw [PackSession.perform_eq obeyNone p s a (by rw [Sending.carryOut, sent])] at refused
    rcases answer : (p.doing a).answer with e | _
    · rw [answer] at refused
      cases refused
      exact absurd answer ((p.doing a).own fault)
    · rw [answer] at refused
      cases refused

/-- **A session in which the stream refused a byte** leaves it not good. -/
theorem run_refused {actions : List (PackAction Empty)} {fault : SinkFault}
    (refused : ∃ report ∈ (x.run obeyNone actions).1, report.result = .error (.sink fault)) :
    (x.run obeyNone actions).2.sink.state.good = false := by
  induction actions generalizing x with
  | nil =>
    obtain ⟨report, member, -⟩ := refused
    exact absurd member List.not_mem_nil
  | cons a as ih =>
    obtain ⟨report, member, result⟩ := refused
    rcases List.mem_cons.1 member with rfl | later
    · exact (run_of_not_good (perform_refused result) as).1
    · exact ih ⟨report, later, result⟩

end StreamSink

/-! ## 5. Sessions -/

/-- A session on a stream whose buffer takes so many bytes. -/
def PackSession.onStream (w : BitWidth) (capacity : Nat) : PackSession StreamSink :=
  ⟨.new w, StreamSink.new (some capacity)⟩

/-- A session on a sink that takes so many attempts and fails at every later one. -/
def PackSession.onScript (w : BitWidth) (capacity : Nat) : PackSession ScriptedSink :=
  ⟨.new w, ScriptedSink.new fun i => capacity ≤ i⟩

/-- **A session on a stream of limited capacity is seen as one on a script.** Over any writes,
    finishes, bytes written past the packer and packers put in place of the last one, every action
    comes to the same on both: it fails on the one where it fails on the other, with the same error
    but for the fault of the sink, as many bytes have got there, and the packers are the same. Once
    an action met a fault of the stream, nothing that is done later adds a byte to it. -/
theorem run_stream_of_capacity (w : BitWidth) (capacity : Nat) (actions : List (PackAction Empty)) :
    ∃ reports stream script,
      (PackSession.onStream w capacity).run StreamSink.obeyNone actions
        = (reports.map (PackReport.withFault .streamFailed), stream) ∧
      (PackSession.onScript w capacity).run ScriptedSink.obey actions = (reports, script) ∧
      content stream.sink = content script.sink ∧ stream.packer = script.packer ∧
      ∀ fault, (∃ report ∈ reports, report.result = .error (.sink fault)) →
        ∀ later, content ((PackSession.onStream w capacity).run StreamSink.obeyNone
          (actions ++ later)).2.sink = content stream.sink := by
  have beside : PackSession.Beside (StreamSink.InStep capacity) (PackSession.onStream w capacity)
      (PackSession.onScript w capacity) := ⟨rfl, StreamSink.inStep_new capacity⟩
  have alike : AgreeVia (List.map (PackReport.withFault .streamFailed))
      (PackSession.Beside (StreamSink.InStep capacity))
      ((PackSession.onStream w capacity).run StreamSink.obeyNone actions)
      ((PackSession.onScript w capacity).run ScriptedSink.obey actions) :=
    (StreamSink.takesAlike capacity).run beside actions
  obtain ⟨reports, stream, script, left, right, last⟩ := alike
  refine ⟨reports, stream, script, left, right, (StreamSink.takesAlike capacity).content last.sink,
    last.packer, ?_⟩
  rintro fault ⟨report, member, result⟩ later
  have refused : ∃ report ∈ ((PackSession.onStream w capacity).run StreamSink.obeyNone actions).1,
      report.result = .error (.sink .streamFailed) := by
    rw [left]
    refine ⟨report.withFault .streamFailed, List.mem_map_of_mem member, ?_⟩
    rw [PackReport.withFault, result]
    rfl
  have bad := StreamSink.run_refused refused
  rw [left] at bad
  rw [PackSession.run_append, left]
  exact congrArg Array.toList (StreamSink.run_of_not_good bad later).2

/-- A buffer for two bytes refuses the third. The byte and the packer that come behind it leave no
    trace, though a script that fails once would have let them through. -/
theorem run_stream_of_capacity_two_bytes :
    ∃ reports stream script,
      (PackSession.onStream ⟨8, by decide⟩ 2).run StreamSink.obeyNone
          [.write 1, .putByte 9, .write 2]
        = (reports.map (PackReport.withFault .streamFailed), stream) ∧
      (PackSession.onScript ⟨8, by decide⟩ 2).run ScriptedSink.obey
          [.write 1, .putByte 9, .write 2] = (reports, script) ∧
      (∃ report ∈ reports, report.result = .error (.sink .closed)) ∧
      content stream.sink = [1, 9] ∧
      content ((PackSession.onStream ⟨8, by decide⟩ 2).run StreamSink.obeyNone
        ([.write 1, .putByte 9, .write 2] ++ [.finish, .renew 4, .putByte 7, .write 5, .finish])).2.sink
          = [1, 9] := by
  obtain ⟨reports, stream, script, left, right, same, -, stays⟩ :=
    run_stream_of_capacity ⟨8, by decide⟩ 2 [.write 1, .putByte 9, .write 2]
  obtain rfl : _ = reports := congrArg Prod.fst right
  obtain rfl : _ = script := congrArg Prod.snd right
  have refused : ∃ report ∈ ((PackSession.onScript ⟨8, by decide⟩ 2).run ScriptedSink.obey
      [.write 1, .putByte 9, .write 2]).1, report.result = .error (.sink .closed) :=
    ⟨_, List.mem_cons_of_mem _ (List.mem_cons_of_mem _ List.mem_cons_self), rfl⟩
  have held : content stream.sink = [1, 9] := same.trans rfl
  exact ⟨_, stream, _, left, rfl, refused, held, (stays .closed refused _).trans held⟩

end PackedInts
