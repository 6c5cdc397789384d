import PackedInts.Session.Unpacking
import PackedInts.Proofs.Agree

/-!
# A stream read like a source in memory

An input stream has sticky state bits and a source in memory has none. Over a buffer that never
breaks this makes no difference to a reader: the only bits that reading raises are those of an end
of the data that was really met, and there both sources report the end, as often as they are asked
and whether or not the bits are cleared in between.

* `AnswersAlike` -- two kinds of sources of which one cannot be told from the other by an attempt;
* `AnswersAlike.load`, `AnswersAlike.read`, `AnswersAlike.perform`, `AnswersAlike.run` -- then
  neither can a load, a read, an action or a whole session;
* `StreamSource.Mirrors` -- what a stream keeps that is read beside a source in memory;
* **`run_stream_eq_run_memory`** -- every session over the one is seen as it is over the other.
-/

namespace PackedInts

/-! ## 1. Sources that answer alike -/

section Alike

variable {σ τ : Type} [Source σ] [Source τ] {R : σ → τ → Prop} {s : σ} {t : τ}

/-- **Related sources answer alike**: they have the same bytes left, an attempt on the one comes to
    what it comes to on the other, and it leaves them related. -/
structure AnswersAlike (R : σ → τ → Prop) : Prop where
  pending : ∀ {s t}, R s t → pending s = pending t
  poll : ∀ {s t}, R s t → Agree R (poll s) (poll t)

namespace AnswersAlike

/-! ## 2. One unpacker on either source -/

variable (alike : AnswersAlike R)

include alike

theorem load (h : R s t) (u : Unpacker) (n : Nat) :
    Agree (Agree R) (u.load s n) (u.load t n) := by
  induction n generalizing u s t with
  | zero => exact Agree.intro _ (Agree.intro u h)
  | succ n ih =>
    obtain ⟨answer, s', t', left, right, next⟩ := alike.poll h
    unfold Unpacker.load
    rw [left, right]
    match answer with
    | .ok (some b) => exact ih next (u.place b)
    | .ok none => exact Agree.intro _ (Agree.intro u next)
    | .error fault => exact Agree.intro _ (Agree.intro u next)

theorem readOpen (h : R s t) (u : Unpacker) : Agree (Agree R) (u.readOpen s) (u.readOpen t) := by
  obtain ⟨result, _, _, left, right, u', s', t', rfl, rfl, next⟩ :=
    alike.load h u (u.neededBytes - u.loaded)
  unfold Unpacker.readOpen
  rw [left, right]
  cases result with
  | ok _ => exact Agree.intro _ (Agree.intro _ next)
  | error e => exact Agree.intro _ (Agree.intro _ next)

/-- **A read comes to the same** on related sources, and leaves the same unpacker. -/
theorem read (h : R s t) (u : Unpacker) : Agree (Agree R) (u.read s) (u.read t) := by
  unfold Unpacker.read
  split
  · exact Agree.intro _ (Agree.intro u h)
  · exact alike.readOpen h u.openGroup

end AnswersAlike

/-! ## 3. Sessions on either source -/

/-- Two sessions have the same unpacker, on related sources. -/
structure UnpackSession.Beside (R : σ → τ → Prop) (x : UnpackSession σ) (y : UnpackSession τ) :
    Prop where
  unpacker : x.unpacker = y.unpacker
  source : R x.source y.source

namespace AnswersAlike

open UnpackSession

variable {κ : Type} {obey : σ → κ → σ} {obey' : τ → κ → τ} {x : UnpackSession σ}
  {y : UnpackSession τ}

/-- **An action comes to the same**, if orders keep the sources related. -/
theorem perform (alike : AnswersAlike R) (orders : ∀ {s t}, R s t → ∀ o, R (obey s o) (obey' t o))
    (h : Beside R x y) (a : UnpackAction κ) :
    Agree (Beside R) (x.perform obey a) (y.perform obey' a) := by
  obtain ⟨u, s⟩ := x
  obtain ⟨_, t⟩ := y
  obtain ⟨rfl, related⟩ := h
  unfold UnpackSession.perform
  cases a with
  | read =>
    obtain ⟨result, _, _, left, right, u', s', t', rfl, rfl, next⟩ := alike.read related u
    dsimp only
    rw [left, right]
    exact Agree.intro _ ⟨rfl, next⟩
  | takeByte =>
    obtain ⟨answer, s', t', left, right, next⟩ := alike.poll related
    dsimp only
    rw [left, right]
    cases answer with
    | ok b => exact Agree.intro _ ⟨rfl, next⟩
    | error fault => exact Agree.intro _ ⟨rfl, next⟩
  | renew width =>
    dsimp only
    cases BitWidth.ofUInt32 width with
    | ok w => exact Agree.intro _ ⟨rfl, related⟩
    | error e => exact Agree.intro _ ⟨rfl, related⟩
  | order o => exact Agree.intro _ ⟨rfl, orders related o⟩

/-- So it is seen in the same way. -/
theorem step (alike : AnswersAlike R) (orders : ∀ {s t}, R s t → ∀ o, R (obey s o) (obey' t o))
    (h : Beside R x y) (a : UnpackAction κ) :
    Agree (Beside R) (x.step obey a) (y.step obey' a) := by
  obtain ⟨result, x', y', left, right, next⟩ := alike.perform orders h a
  unfold UnpackSession.step
  rw [left, right]
  dsimp only
  rw [alike.pending next.source, next.unpacker]
  exact Agree.intro _ next

/-- **A whole session is seen in the same way**, action by action. -/
theorem run (alike : AnswersAlike R) (orders : ∀ {s t}, R s t → ∀ o, R (obey s o) (obey' t o))
    (h : Beside R x y) (actions : List (UnpackAction κ)) :
    Agree (Beside R) (x.run obey actions) (y.run obey' actions) := by
  induction actions generalizing x y with
  | nil => exact Agree.intro [] h
  | cons a as ih =>
    obtain ⟨report, x', y', left, right, next⟩ := alike.step orders h a
    obtain ⟨reports, x'', y'', left', right', last⟩ := ih next
    unfold UnpackSession.run
    rw [left, right]
    dsimp only
    rw [left', right']
    exact Agree.intro _ last

end AnswersAlike

end Alike

/-! ## 4. A stream beside a source in memory -/

/-- The one order of sessions over either source: to clear the state bits. -/
inductive ClearOrder
  | clear
  deriving DecidableEq, Repr

def StreamSource.obeyClear (s : StreamSource) : ClearOrder → StreamSource
  | .clear => s.obey .clear

/-- A source in memory has no bits to clear. -/
def MemorySource.obeyClear (s : MemorySource) : ClearOrder → MemorySource
  | .clear => s

namespace StreamSource

/-- **The stream mirrors the source**: it has the same bytes left, its buffer never breaks, and if
    any bit of it is set, then its data are at their end, it says so, and it is not broken. -/
structure Mirrors (s : StreamSource) (m : MemorySource) : Prop where
  rest : s.rest = m.rest
  unbroken : s.breaksAfter = none
  state : s.state.good = true ∨
    s.rest = [] ∧ s.state.atEnd = true ∧ s.state.broken = false

theorem mirrors_new (bytes : Bytes) : Mirrors (new bytes none) ⟨bytes⟩ :=
  ⟨rfl, rfl, .inl rfl⟩

variable {s : StreamSource} {m : MemorySource}

/-- **An attempt on a mirroring stream comes to what it comes to in memory.** -/
theorem Mirrors.poll (h : Mirrors s m) : Agree Mirrors (poll s) (poll m) := by
  obtain ⟨state, breaksAfter, rest⟩ := s
  obtain ⟨_⟩ := m
  obtain ⟨rfl, rfl, bits⟩ := h
  rcases bits with good | ⟨empty, ended, sound⟩
  · obtain rfl : state = .clear := StreamState.good_iff.1 good
    cases rest with
    | nil =>
      have fetched := fetch_of_good_nil (s := ⟨.clear, none, []⟩) rfl (by simp) rfl
      rw [poll_of_unfetched fetched rfl rfl, MemorySource.poll_nil]
      exact Agree.intro _ ⟨rfl, rfl, .inr ⟨rfl, rfl, rfl⟩⟩
    | cons b rest =>
      have fetched := fetch_of_good_cons (s := ⟨.clear, none, b :: rest⟩) rfl (by simp) rfl
      rw [poll_of_fetch fetched, MemorySource.poll_cons]
      exact Agree.intro _ ⟨rfl, rfl, .inl rfl⟩
  · -- the bits are set, so nothing is fetched: the failure that is noted is not the bad bit
    obtain rfl : rest = [] := empty
    have bad : state.good = false := by
      unfold StreamState.good
      rw [show state.atEnd = true from ended]
      rfl
    rw [poll_of_unfetched (fetch_of_not_good bad) ended sound, MemorySource.poll_nil]
    exact Agree.intro _ ⟨rfl, rfl, .inr ⟨rfl, ended, sound⟩⟩

theorem answersAlike : AnswersAlike Mirrors :=
  ⟨fun h => h.rest, fun h => h.poll⟩

/-- Clearing the bits changes nothing that a reader can see. -/
theorem Mirrors.obeyClear (h : Mirrors s m) : ∀ o, Mirrors (s.obeyClear o) (m.obeyClear o)
  | .clear => ⟨h.rest, h.unbroken, .inl rfl⟩

end StreamSource

/-- **A session over a stream is seen as one over memory.** Over any bytes, from any width on and
    for any sequence of reads, bytes taken past the unpacker, unpackers put in place of the last one
    and bits cleared, every action comes to the same value, byte, end or error and leaves as many
    bytes in the source; a width that is refused at the start is refused in both. -/
theorem run_stream_eq_run_memory (bytes : Bytes) (width : UInt32)
    (actions : List (UnpackAction ClearOrder)) :
    (UnpackSession.start width (StreamSource.new bytes none)).map
        (fun session => (session.run StreamSource.obeyClear actions).1)
      = (UnpackSession.start width (MemorySource.mk bytes)).map
        (fun session => (session.run MemorySource.obeyClear actions).1) := by
  unfold UnpackSession.start
  cases BitWidth.ofUInt32 width with
  | error e => rfl
  | ok w =>
    have beside : UnpackSession.Beside StreamSource.Mirrors
        ⟨.new w, StreamSource.new bytes none⟩ ⟨.new w, MemorySource.mk bytes⟩ :=
      ⟨rfl, StreamSource.mirrors_new bytes⟩
    obtain ⟨reports, _, _, left, right, -⟩ := StreamSource.answersAlike.run
      (fun related o => related.obeyClear o) beside actions
    have same : ((UnpackSession.mk (.new w) (StreamSource.new bytes none)).run
        StreamSource.obeyClear actions).1 = ((UnpackSession.mk (.new w) (MemorySource.mk bytes)).run
        MemorySource.obeyClear actions).1 := by
      rw [left, right]
    exact congrArg Except.ok same

end PackedInts
