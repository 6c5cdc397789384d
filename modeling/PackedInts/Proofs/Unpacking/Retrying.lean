import PackedInts.Proofs.Unpacking.Reads

/-!
# Reads from a source that fails now and then

A read asks its source for at most one byte. If it gets none, the unpacker stays where it was, so
the same read can be made again: nothing was lost and nothing is skipped, however often the source
failed in between.

* `Lossless` -- an attempt on the source takes exactly the byte that it delivers;
* `UnpackSession.HasRead` -- what a session of reads keeps, whatever failed: so many values were
  read, out of exactly the bytes that they reach into;
* `UnpackSession.ReadsNext` -- how the next read goes, by the one attempt that it makes;
* `UnpackSession.HasRead.perform_read` -- every read goes in one of these ways;
* `UnpackSession.HasRead.run_reads` -- the values of any number of reads;
* **`run_reads_of_script`** -- reads from a source whose attempts fail by any script.
-/

namespace PackedInts

/-! ## 1. Sources that lose nothing -/

/-- **An attempt takes exactly the byte that it delivers**; one that fails, or that reports an end,
    true or false, takes none. -/
def Lossless (σ : Type) [Source σ] : Prop :=
  ∀ s : σ,
    match poll s with
    | (.ok (some x), s') => pending s = x :: pending s'
    | (_, s') => pending s' = pending s

namespace ScriptedSource

variable {s : ScriptedSource}

theorem poll_of_fail (h : s.script s.attempts = .fail) : poll s = (.error .device, s.passed) := by
  simp [poll, h]

theorem poll_of_pretendEnd (h : s.script s.attempts = .pretendEnd) :
    poll s = (.ok none, s.passed) := by
  simp [poll, h]

theorem poll_of_deliver_nil (h : s.script s.attempts = .deliver) (hr : s.rest = []) :
    poll s = (.ok none, s.passed) := by
  simp [poll, h, hr]

theorem poll_of_deliver_cons (h : s.script s.attempts = .deliver) {x : UInt8} {rest : Bytes}
    (hr : s.rest = x :: rest) : poll s = (.ok (some x), { s.passed with rest := rest }) := by
  simp [poll, h, hr]

/-- Every attempt is counted. -/
theorem attempts_poll (s : ScriptedSource) : (poll s).2.attempts = s.attempts + 1 := by
  cases h : s.script s.attempts with
  | fail =>
    rw [poll_of_fail h]
    rfl
  | pretendEnd =>
    rw [poll_of_pretendEnd h]
    rfl
  | deliver =>
    cases hr : s.rest with
    | nil =>
      rw [poll_of_deliver_nil h hr]
      rfl
    | cons x rest =>
      rw [poll_of_deliver_cons h hr]
      rfl

theorem lossless : Lossless ScriptedSource := by
  intro s
  cases h : s.script s.attempts with
  | fail =>
    rw [poll_of_fail h]
    rfl
  | pretendEnd =>
    rw [poll_of_pretendEnd h]
    rfl
  | deliver =>
    cases hr : s.rest with
    | nil =>
      rw [poll_of_deliver_nil h hr]
      rfl
    | cons x rest =>
      rw [poll_of_deliver_cons h hr]
      exact hr

end ScriptedSource

/-! ## 2. One read -/

/-- The value number `k` in the bytes. -/
def valueAt (w : BitWidth) (b : Bytes) (k : Nat) : UInt32 :=
  (Bits.window (Bits.ofBytes b) (k * w.bits) w.bits).toUInt32

namespace UnpackSession

variable {σ κ : Type} [Source σ] {w : BitWidth} {b : Bytes} {m : Nat}

/-- **What a session of reads keeps**: its unpacker has read `m` values out of exactly the bytes
    that they reach into, and the source still has all others. -/
structure HasRead (w : BitWidth) (b : Bytes) (m : Nat) (s : UnpackSession σ) : Prop where
  reached : Unpacker.Reached w s.unpacker (b.take (byteCount (m * w.bits))) m
  rest : pending s.source = b.drop (byteCount (m * w.bits))

/-- **How the next read goes.** It makes no attempt on the source, or one. -/
inductive ReadsNext (w : BitWidth) (b : Bytes) (m : Nat) (s : UnpackSession σ) :
    Except PackingError UnpackAnswer × UnpackSession σ → Prop
  /-- The bytes of the value were taken before. -/
  | held {u : Unpacker} (next : HasRead w b (m + 1) ⟨u, s.source⟩) :
      ReadsNext w b m s (.ok (.value (valueAt w b m)), ⟨u, s.source⟩)
  /-- The attempt delivers the byte that was missing. -/
  | served {u : Unpacker} {s' : σ} {x : UInt8} (attempt : poll s.source = (.ok (some x), s'))
      (next : HasRead w b (m + 1) ⟨u, s'⟩) :
      ReadsNext w b m s (.ok (.value (valueAt w b m)), ⟨u, s'⟩)
  /-- The attempt reports an end. -/
  | ended {u : Unpacker} {s' : σ} (attempt : poll s.source = (.ok none, s'))
      (same : HasRead w b m ⟨u, s'⟩) : ReadsNext w b m s (.error .exhausted, ⟨u, s'⟩)
  /-- The attempt fails. -/
  | faulted {u : Unpacker} {s' : σ} {fault : SourceFault}
      (attempt : poll s.source = (.error fault, s')) (same : HasRead w b m ⟨u, s'⟩) : ReadsNext w b m s (.error (.source fault), ⟨u, s'⟩)

theorem hasRead_start {s : σ} (w : BitWidth) (h : pending s = b) :
    HasRead w b 0 ⟨.new w, s⟩ := by
  constructor
  · rw [Nat.zero_mul]
    exact .fresh
  · rw [Nat.zero_mul]
    exact h

/-- The value at hand, read off the bytes that it reaches into. -/
theorem HasRead.window_eq (inside : byteCount ((m + 1) * w.bits) ≤ b.length) :
    (Bits.window (Bits.ofBytes (b.take (byteCount ((m + 1) * w.bits)))) (m * w.bits)
      w.bits).toUInt32 = valueAt w b m := by
  unfold valueAt
  rw [Bits.window_take inside]
  rw [← Nat.succ_mul]
  exact le_eight_mul_byteCount _

/-- **Every read goes in one of the four ways**, on a source that loses nothing. -/
theorem HasRead.perform_read {s : UnpackSession σ} (h : HasRead w b m s) (lossless : Lossless σ)
    (obey : σ → κ → σ) : ReadsNext w b m s (s.perform obey .read) := by
  obtain ⟨u, source⟩ := s
  obtain ⟨reached, rest⟩ := h
  have len := reached.length_taken
  have law := lossless source
  rcases reached.held_or_needs with held | needs
  · obtain ⟨u', read, reached'⟩ := reached.read_of_held held source
    rw [len] at held
    have le := reached.byteCount_le_length
    rw [← held] at read reached' rest le
    unfold perform
    rw [read, HasRead.window_eq le]
    exact .held ⟨reached', rest⟩
  · unfold perform
    match attempt : poll source with
    | (.ok (some x), s') =>
      rw [attempt] at law
      obtain ⟨u', read, reached'⟩ := reached.read_of_some needs attempt
      rw [len] at needs
      -- the byte that was delivered is the next one of all
      have law : x :: pending s' = b.drop (byteCount (m * w.bits)) := by rw [← rest]; exact law.symm
      have more : byteCount (m * w.bits) < b.length := by
        by_contra none
        rw [List.drop_eq_nil_of_le (Nat.le_of_not_lt none)] at law
        cases law
      rw [List.drop_eq_getElem_cons more] at law
      obtain ⟨rfl, behind⟩ := List.cons.inj law
      rw [List.take_concat_get' b _ more, ← needs] at read reached'
      rw [← needs] at behind
      rw [read, HasRead.window_eq (by omega)]
      exact .served attempt ⟨reached', behind⟩
    | (.ok none, s') =>
      rw [attempt] at law
      rw [reached.read_of_none needs attempt]
      exact .ended attempt ⟨reached.openGroup (reached.positive_of_needs needs), law.trans rest⟩
    | (.error fault, s') =>
      rw [attempt] at law
      rw [reached.read_of_error needs attempt]
      exact .faulted attempt ⟨reached.openGroup (reached.positive_of_needs needs), law.trans rest⟩

/-- A read gives the value at hand and goes on, or fails and stays. -/
theorem ReadsNext.moves {s : UnpackSession σ}
    {outcome : Except PackingError UnpackAnswer × UnpackSession σ} (h : ReadsNext w b m s outcome) :
    outcome.1 = .ok (.value (valueAt w b m)) ∧ HasRead w b (m + 1) outcome.2 ∨
      (∃ e, outcome.1 = .error e) ∧ HasRead w b m outcome.2 := by
  cases h with
  | held next => exact .inl ⟨rfl, next⟩
  | served attempt next => exact .inl ⟨rfl, next⟩
  | ended attempt same => exact .inr ⟨⟨_, rfl⟩, same⟩
  | faulted attempt same => exact .inr ⟨⟨_, rfl⟩, same⟩

/-- **A read leaves the source as it was, or as one attempt leaves it**; what the attempt comes to
    decides what the read comes to. -/
theorem ReadsNext.attempt {s : UnpackSession σ}
    {outcome : Except PackingError UnpackAnswer × UnpackSession σ} (h : ReadsNext w b m s outcome) :
    (∃ v, outcome.1 = .ok (.value v)) ∧ outcome.2.source = s.source ∨
      outcome.2.source = (poll s.source).2 ∧
        match (poll s.source).1 with
        | .ok (some _) => ∃ v, outcome.1 = .ok (.value v)
        | .ok none => outcome.1 = .error .exhausted
        | .error fault => outcome.1 = .error (.source fault) := by
  cases h with
  | held next => exact .inl ⟨⟨_, rfl⟩, rfl⟩
  | served attempt next =>
    rw [attempt]
    exact .inr ⟨rfl, _, rfl⟩
  | ended attempt same =>
    rw [attempt]
    exact .inr ⟨rfl, rfl⟩
  | faulted attempt same =>
    rw [attempt]
    exact .inr ⟨rfl, rfl⟩

end UnpackSession

/-! ## 3. Any number of reads -/

/-- The value that an action gave, if it was a read that succeeded. -/
def UnpackReport.value? (report : UnpackReport) : Option UInt32 :=
  match report.result with
  | .ok (.value v) => some v
  | _ => none

/-- The values that the reads of a session gave, in order. -/
def valuesRead (reports : List UnpackReport) : List UInt32 :=
  reports.filterMap UnpackReport.value?

section Reports

variable {report : UnpackReport}

theorem valuesRead_cons_of_value {v : UInt32} (h : report.result = .ok (.value v))
    (reports : List UnpackReport) :
    valuesRead (report :: reports) = v :: valuesRead reports := by
  have some : report.value? = some v := by
    unfold UnpackReport.value?
    rw [h]
  exact List.filterMap_cons_some some

theorem valuesRead_cons_of_error {e : PackingError} (h : report.result = .error e)
    (reports : List UnpackReport) : valuesRead (report :: reports) = valuesRead reports := by
  have none : report.value? = none := by
    unfold UnpackReport.value?
    rw [h]
  exact List.filterMap_cons_none none

end Reports

/-- The source after one attempt, whatever became of it. -/
def attempted {σ : Type} [Source σ] (s : σ) : σ :=
  (poll s).2

namespace UnpackSession

variable {σ κ : Type} [Source σ] {w : BitWidth} {b : Bytes} {m : Nat}

theorem length_run (obey : σ → κ → σ) (s : UnpackSession σ) (actions : List (UnpackAction κ)) :
    (s.run obey actions).1.length = actions.length := by
  induction actions generalizing s with
  | nil => rfl
  | cons a as ih => exact congrArg (· + 1) (ih _)

/-- **The values of any number of reads** are those that come next in the bytes, in order and
    without a gap, whatever failed in between. -/
theorem HasRead.run_reads {s : UnpackSession σ} (h : HasRead w b m s) (lossless : Lossless σ)
    (obey : σ → κ → σ) (n : Nat) :
    ∃ k ≤ n, valuesRead (s.run obey (List.replicate n .read)).1
        = (List.range k).map (fun j => valueAt w b (m + j)) ∧
      HasRead w b (m + k) (s.run obey (List.replicate n .read)).2 := by
  induction n generalizing m s with
  | zero => exact ⟨0, Nat.le_refl 0, rfl, h⟩
  | succ n ih =>
    rcases (h.perform_read lossless obey).moves with ⟨value, next⟩ | ⟨⟨e, failed⟩, same⟩
    · obtain ⟨k, le, values, last⟩ := ih next
      refine ⟨k + 1, Nat.succ_le_succ le, ?_, ?_⟩
      · rw [map_range_add_succ (valueAt w b), ← values]
        exact valuesRead_cons_of_value value _
      · have count : m + (k + 1) = m + 1 + k := by omega
        rw [count]
        exact last
    · obtain ⟨k, le, values, last⟩ := ih same
      exact ⟨k, Nat.le_succ_of_le le, (valuesRead_cons_of_error failed _).trans values, last⟩

/-- **So many reads make at most as many attempts**, and do nothing else to the source. -/
theorem HasRead.run_reads_source {s : UnpackSession σ} (h : HasRead w b m s)
    (lossless : Lossless σ) (obey : σ → κ → σ) (n : Nat) :
    ∃ j ≤ n, (s.run obey (List.replicate n .read)).2.source = attempted^[j] s.source := by
  induction n generalizing m s with
  | zero => exact ⟨0, Nat.le_refl 0, rfl⟩
  | succ n ih =>
    have goes := h.perform_read lossless obey
    obtain ⟨j, le, source⟩ : ∃ j ≤ n, ((s.perform obey .read).2.run obey
        (List.replicate n .read)).2.source = attempted^[j] (s.perform obey .read).2.source := by
      rcases goes.moves with ⟨-, next⟩ | ⟨-, same⟩
      · exact ih next
      · exact ih same
    rcases goes.attempt with ⟨-, still⟩ | ⟨once, -⟩
    · rw [still] at source
      exact ⟨j, Nat.le_succ_of_le le, source⟩
    · rw [once] at source
      exact ⟨j + 1, Nat.succ_le_succ le, source⟩

end UnpackSession

/-! ## 4. Sources that fail by a script -/

theorem ScriptedSource.script_attempted (j : Nat) (s : ScriptedSource) :
    (attempted^[j] s).script = s.script := by
  have once : ∀ s : ScriptedSource, (attempted s).script = s.script := by
    intro s
    unfold attempted
    simp only [poll]
    split <;> rfl
  induction j generalizing s with
  | zero => rfl
  | succ j ih => rw [Function.iterate_succ_apply, ih, once]

/-- **What a read comes to that makes this attempt** on a source with the bytes `rest` left: its
    result, and the bytes left behind it. -/
def Attempt.Decides (attempt : Attempt) (rest : Bytes) (result : Except PackingError UnpackAnswer)
    (left : Bytes) : Prop :=
  match attempt, rest with
  | .fail, _ => result = .error (.source .device) ∧ left = rest
  | .pretendEnd, _ => result = .error .exhausted ∧ left = rest
  | .deliver, [] => result = .error .exhausted ∧ left = []
  | .deliver, _ :: others => (∃ v, result = .ok (.value v)) ∧ left = others

/-- A read from a scripted source makes no attempt, or the one that is next in the script. -/
theorem UnpackSession.ReadsNext.of_script {w : BitWidth} {b : Bytes} {m : Nat}
    {s : UnpackSession ScriptedSource}
    {outcome : Except PackingError UnpackAnswer × UnpackSession ScriptedSource}
    (h : ReadsNext w b m s outcome) :
    (∃ v, outcome.1 = .ok (.value v)) ∧ outcome.2.source = s.source ∨
      outcome.2.source.attempts = s.source.attempts + 1 ∧
        (s.source.script s.source.attempts).Decides s.source.rest outcome.1
          outcome.2.source.rest := by
  rcases h.attempt with still | ⟨source, result⟩
  · exact .inl still
  · right
    rw [source]
    refine ⟨ScriptedSource.attempts_poll s.source, ?_⟩
    cases hs : s.source.script s.source.attempts with
    | fail =>
      rw [ScriptedSource.poll_of_fail hs] at result ⊢
      exact ⟨result, rfl⟩
    | pretendEnd =>
      rw [ScriptedSource.poll_of_pretendEnd hs] at result ⊢
      exact ⟨result, rfl⟩
    | deliver =>
      cases hr : s.source.rest with
      | nil =>
        rw [ScriptedSource.poll_of_deliver_nil hs hr] at result ⊢
        exact ⟨result, hr⟩
      | cons x rest =>
        rw [ScriptedSource.poll_of_deliver_cons hs hr] at result ⊢
        exact ⟨result, rfl⟩

/-- The first values of the bytes are among those that a source in memory gives. -/
theorem prefix_valuesRead_of_memory {w : BitWidth} {b : Bytes} {k n : Nat} (le : k ≤ n)
    (inside : byteCount (k * w.bits) ≤ b.length) :
    (List.range k).map (valueAt w b) <+: valuesRead ((UnpackSession.mk (.new w)
      (MemorySource.mk b)).run MemorySource.obey (List.replicate n .read)).1 := by
  obtain ⟨d, rfl⟩ := Nat.exists_eq_add_of_le le
  obtain ⟨seen, -⟩ := (UnpackSession.holds_start w b).run_reads (k + d)
  have front : (List.range k).filterMap (fun j => (readReport w b (0 + j)).value?)
      = (List.range k).map (valueAt w b) := by
    rw [← List.filterMap_eq_map]
    refine List.filterMap_congr fun j hj => ?_
    have further : (j + 1) * w.bits ≤ k * w.bits :=
      Nat.mul_le_mul_right _ (List.mem_range.1 hj)
    have within : (j + 1) * w.bits ≤ 8 * b.length := by
      have := le_eight_mul_byteCount (k * w.bits)
      omega
    rw [Nat.zero_add, readReport, if_pos within]
    rfl
  rw [seen, valuesRead, List.filterMap_map, List.range_add, List.filterMap_append]
  show _ <+: (List.range k).filterMap (fun j => (readReport w b (0 + j)).value?) ++ _
  rw [front]
  exact List.prefix_append _ _

/-- **A read that fails loses nothing and can be made again.** The source holds the bytes `b`, and
    its attempts fail, pretend an end or deliver by any script. After any number of reads, the values
    of those that succeeded are the first ones that a source without faults gives, and exactly the
    bytes that they reach into were taken. The next read makes no attempt on the source, or one; if
    the attempt delivers no byte, the read fails with the cause that the attempt had and takes
    nothing. A fault of any source comes through as it is. -/
theorem run_reads_of_script (w : BitWidth) (b : Bytes) (script : Nat → Attempt) (n : Nat) :
    ∃ reports last,
      (UnpackSession.mk (.new w) (ScriptedSource.new script b)).run ScriptedSource.obey
        (List.replicate n .read) = (reports, last) ∧
      reports.length = n ∧
      valuesRead reports <+: valuesRead ((UnpackSession.mk (.new w) (MemorySource.mk b)).run
        MemorySource.obey (List.replicate n .read)).1 ∧
      byteCount ((valuesRead reports).length * w.bits) ≤ b.length ∧
      last.source.rest = b.drop (byteCount ((valuesRead reports).length * w.bits)) ∧
      (∃ report next, last.step ScriptedSource.obey .read = (report, next) ∧
        ((∃ v, report.result = .ok (.value v)) ∧ next.source = last.source ∨
          next.source.attempts = last.source.attempts + 1 ∧
            (script last.source.attempts).Decides last.source.rest report.result
              next.source.rest)) ∧
      ∀ (τ : Type) [Source τ] (s s' : τ) (fault : SourceFault), poll s = (.error fault, s') →
        (∃ v u, last.unpacker.read s = (.ok v, u, s)) ∨
          ∃ u, last.unpacker.read s = (.error (.source fault), u, s') := by
  have start := UnpackSession.hasRead_start (s := ScriptedSource.new script b) w rfl
  obtain ⟨k, le, values, holds⟩ :=
    start.run_reads ScriptedSource.lossless ScriptedSource.obey n
  obtain ⟨j, -, source⟩ := start.run_reads_source ScriptedSource.lossless ScriptedSource.obey n
  have length := UnpackSession.length_run ScriptedSource.obey
    (UnpackSession.mk (.new w) (ScriptedSource.new script b)) (List.replicate n .read)
  revert values holds source length
  generalize (UnpackSession.mk (.new w) (ScriptedSource.new script b)).run ScriptedSource.obey
    (List.replicate n .read) = outcome
  obtain ⟨reports, last⟩ := outcome
  intro values holds source length
  simp only [Nat.zero_add] at values holds
  have count : (valuesRead reports).length = k := by
    rw [values, List.length_map, List.length_range]
  have inside := holds.reached.byteCount_le_length
  have scripted : last.source.script = script := by
    rw [source, ScriptedSource.script_attempted]
    rfl
  refine ⟨reports, last, rfl, ?_, ?_, ?_, ?_, ?_, ?_⟩
  · rw [length, List.length_replicate]
  · rw [values]
    exact prefix_valuesRead_of_memory le inside
  · rw [count]
    exact inside
  · rw [count]
    exact holds.rest
  · refine ⟨_, _, rfl, ?_⟩
    rw [← scripted]
    exact (holds.perform_read ScriptedSource.lossless ScriptedSource.obey).of_script
  · intro τ _ s s' fault failed
    rcases holds.reached.held_or_needs with held | needs
    · obtain ⟨u, read, -⟩ := holds.reached.read_of_held held s
      exact .inl ⟨_, u, read⟩
    · exact .inr ⟨_, holds.reached.read_of_error needs failed⟩

/-- The second attempt fails and the third pretends an end. After three reads one value of five bits
    is there and one byte is taken, and a broken stream in the place of the source is noticed. -/
theorem run_reads_of_two_faults :
    ∃ reports last,
      (UnpackSession.mk (.new ⟨5, by decide⟩) (ScriptedSource.ofLists [1] [2] [0xAB, 0xCD])).run
        ScriptedSource.obey (List.replicate 3 .read) = (reports, last) ∧
      valuesRead reports = [21] ∧
      last.source.rest = [0xCD] ∧
      poll (StreamSource.new [1] (some 0)) = (.error .streamFailed, ⟨⟨false, true, true⟩, some 0, [1]⟩) ∧
      ∃ u, last.unpacker.read (StreamSource.new [1] (some 0))
        = (.error (.source .streamFailed), u, ⟨⟨false, true, true⟩, some 0, [1]⟩) := by
  obtain ⟨reports, last, run, -, -, -, rest, -, through⟩ := run_reads_of_script ⟨5, by decide⟩
    [0xAB, 0xCD] (ScriptedSource.ofLists [1] [2] [0xAB, 0xCD]).script 3
  have values : valuesRead reports = [21] := by
    rw [show reports = _ from (congrArg Prod.fst run).symm]
    decide
  have broken : poll (StreamSource.new [1] (some 0))
      = (.error .streamFailed, ⟨⟨false, true, true⟩, some 0, [1]⟩) := rfl
  rw [values] at rest
  refine ⟨reports, last, run, values, rest, broken, ?_⟩
  rcases through _ _ _ _ broken with ⟨v, u, read⟩ | noticed
  · have failed : (last.unpacker.read (StreamSource.new [1] (some 0))).1
        = .error (.source .streamFailed) := by
      rw [show last = _ from (congrArg Prod.snd run).symm]
      rfl
    rw [read] at failed
    cases failed
  · exact noticed

end PackedInts
