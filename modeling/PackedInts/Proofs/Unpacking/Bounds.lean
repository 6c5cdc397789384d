import PackedInts.Session.Unpacking
import PackedInts.Proofs.Watched
import PackedInts.Proofs.Unpacking.Reading

/-!
# The bounds of an unpacker

Whatever its source does, an unpacker is as it was made or within a group: the bytes that it has loaded
are those that the values read reach into, and below them its register is empty. So a byte that comes
in finds its place, and every step of the next read goes well.

* `Unpacker.Loaded.placeWatched_eq`, `Unpacker.Loaded.loadWatched_eq` -- bytes for which the group has
  room;
* `Unpacker.Loaded.readOpenWatched_eq` -- a read within a group that is not used up;
* `Unpacker.AtWork`, `Unpacker.Resting` -- what an unpacker keeps between two reads, from its first
  read on and always;
* `Unpacker.Resting.atWork_read` -- any read leaves the unpacker at work;
* `Unpacker.Resting.readWatched_eq` -- every step of the next read goes well;
* `UnpackSession.run_keeps` -- what every read keeps, a session keeps;
* **`UnpackSession.resting_run`**, **`UnpackSession.atWork_run`** -- the bounds at any point of a
  session, and from its first read on.
-/

namespace PackedInts

namespace Unpacker

variable {σ : Type} [Source σ] {u : Unpacker} {w : BitWidth}

/-! ## 1. Reads within a group -/

namespace Loaded

variable {group : Bytes} {i : Nat}

/-- **A byte for which the group has room** is placed below those loaded before, and meets no bit. -/
theorem placeWatched_eq (h : Loaded w u group i) (room : group.length < w.groupBytes) (b : UInt8) :
    u.placeWatched b = some (u.place b) := by
  have within := h.place_le room
  have high := h.register_high room
  have shifted := toNat_shiftLeft_byte b (within.trans (by decide))
  have apart := and_eq_zero_of_aligned high (by rw [shifted]; exact byte_mul_lt b _)
  obtain ⟨rfl, -, -, -, loaded, -⟩ := h
  rw [placeWatched, Watched.difference_of_le (show 1 ≤ u.width.groupBytes by omega),
    Unpacker.place, loaded]
  simp only [Option.bind_eq_bind, Option.bind_some,
    Watched.difference_of_le (show group.length ≤ u.width.groupBytes - 1 by omega),
    Watched.shiftUp_of_fits (show 8 * (u.width.groupBytes - 1 - group.length) < 64 by omega)
      (byte_fits b (within.trans (by decide))),
    Watched.join_of_disjoint apart, Option.pure_def]

/-- **A run of bytes for which the group has room** is loaded, up to where the source fails; the
    values read stay the same. -/
theorem loadWatched_eq (h : Loaded w u group i) {n : Nat}
    (room : group.length + n ≤ w.groupBytes) (s : σ) :
    ∃ result u' s' loaded, u.load s n = (result, u', s') ∧
      u.loadWatched s n = some (result, u', s') ∧ Loaded w u' loaded i := by
  induction n generalizing u group s with
  | zero => exact ⟨_, u, s, group, rfl, rfl, h⟩
  | succ n ih =>
    rw [loadWatched, load]
    rcases poll s with ⟨attempt, s'⟩
    cases attempt with
    | error fault => exact ⟨_, u, s', group, rfl, rfl, h⟩
    | ok delivered =>
      cases delivered with
      | none => exact ⟨_, u, s', group, rfl, rfl, h⟩
      | some b =>
        have grown : (group ++ [b]).length + n ≤ w.groupBytes := by
          rw [List.length_append, List.length_singleton]
          omega
        simp only [h.placeWatched_eq (by omega) b, Option.bind_eq_bind, Option.bind_some]
        exact ih (h.place (by omega) b) grown s'

theorem neededBytesWatched_eq (h : Loaded w u group i) :
    u.neededBytesWatched = some u.neededBytes := by
  have index := h.index
  rw [neededBytesWatched, Watched.difference_of_le (by rw [h.width]; omega)]
  rfl

/-- The value at hand is cut out by shifts within the word. -/
theorem valueAboveWatched_eq (h : Loaded w u group i) (hi : i < w.groupValues) :
    u.valueAboveWatched (u.remaining - 1) = some (u.valueAbove (u.remaining - 1)) := by
  have index := h.index
  have small := (w.group_bounds h.positive).2.2.2
  have below := w.bits_le_of_lt (show u.remaining - 1 < w.groupValues by omega)
  have amount : (u.remaining - 1) * u.width.bits < 64 := by
    rw [h.width]
    omega
  have narrow : u.width.bits < 64 := Nat.lt_of_le_of_lt u.width.bits_le (by decide)
  rw [valueAboveWatched, Watched.shiftDown_of_lt amount, Watched.lowMask_of_lt narrow]
  rfl

/-- **Every step of a read within a group goes well**, on any source. -/
theorem readOpenWatched_eq (h : Loaded w u group i) (hi : i < w.groupValues) (s : σ) :
    u.readOpenWatched s = some (u.readOpen s) := by
  have fits := h.fits
  have needed := w.byteCount_le_of_le (show i + 1 ≤ w.groupValues from hi)
  have room : group.length + (u.neededBytes - u.loaded) ≤ w.groupBytes := by
    rw [h.missingBytes]
    omega
  obtain ⟨result, u', s', loaded, ran, watched, after⟩ := h.loadWatched_eq room s
  rw [readOpenWatched, h.neededBytesWatched_eq, readOpen, ran]
  simp only [Option.bind_eq_bind, Option.bind_some, watched]
  cases result with
  | error e => rfl
  | ok _ =>
    have index := after.index
    simp only [Watched.difference_of_le (show 1 ≤ u'.remaining by omega), Option.bind_some,
      after.valueAboveWatched_eq hi, Option.pure_def]

/-- **The register has no bit above those of a group.** -/
theorem register_lt (h : Loaded w u group i) : u.register.toNat < 2 ^ (8 * w.groupBytes) := by
  rw [h.register, ← h.length_filled]
  exact Bits.toNat_lt _

/-- **Below the bytes loaded the register has no bit.** -/
theorem testBit_register (h : Loaded w u group i) {j : Nat}
    (below : j < 8 * (w.groupBytes - u.loaded)) : u.register.toNat.testBit j = false := by
  rw [h.loaded] at below
  rw [h.register, Bits.toNat_append_zeros, Nat.testBit_mul_two_pow,
    decide_eq_false (Nat.not_le.2 below), Bool.false_and]

end Loaded

/-! ## 2. Between two reads -/

/-- **The unpacker has tried a read**: it is within a group, and the bytes loaded are those that the
    values read out of the group reach into. -/
def AtWork (w : BitWidth) (u : Unpacker) : Prop :=
  ∃ group i, group.length = byteCount (i * w.bits) ∧ Loaded w u group i

/-- **What an unpacker keeps between two reads**: it is as it was made, or at work. -/
inductive Resting (w : BitWidth) : Unpacker → Prop
  | unread : Resting w (.new w)
  | reading {u : Unpacker} (h : AtWork w u) : Resting w u

/-- **From the first read on the counters agree**: the bytes loaded are those of the values that the
    group no longer has. -/
theorem AtWork.loaded_eq (h : AtWork w u) :
    u.loaded = byteCount ((w.groupValues - u.remaining) * w.bits) := by
  obtain ⟨group, i, reach, within⟩ := h
  have index := within.index
  have read : w.groupValues - u.remaining = i := by omega
  rw [within.loaded, reach, read]

section Read

variable {consumed : Bytes} {m : Nat}

theorem Reached.atWork (h : Reached w u consumed m) (positive : 0 < w.bits) (read : 0 < m) :
    AtWork w u := by
  cases h with
  | idle zero => omega
  | fresh => exact absurd read (Nat.lt_irrefl 0)
  | within groups q whole reach h => exact ⟨_, _, reach, h⟩

/-- **A read leaves the unpacker at work**, whatever the source does. -/
theorem Reached.atWork_read (h : Reached w u consumed m) (positive : 0 < w.bits) (s : σ) :
    AtWork w (u.read s).2.1 := by
  obtain ⟨-, group, -, i, -, -, -, reach, -, opened⟩ := h.opened positive
  rcases h.held_or_needs with held | needs
  · obtain ⟨u', read, reached⟩ := h.read_of_held held s
    rw [read]
    exact reached.atWork positive (Nat.succ_pos m)
  · match attempt : poll s with
    | (.ok (some b), s') =>
      obtain ⟨u', read, reached⟩ := h.read_of_some needs attempt
      rw [read]
      exact reached.atWork positive (Nat.succ_pos m)
    | (.ok none, s') =>
      rw [h.read_of_none needs attempt]
      exact ⟨group, i, reach, opened⟩
    | (.error fault, s') =>
      rw [h.read_of_error needs attempt]
      exact ⟨group, i, reach, opened⟩

namespace Resting

theorem width_eq (h : Resting w u) : u.width = w := by
  cases h with
  | unread => rfl
  | reading h =>
    obtain ⟨_, _, _, within⟩ := h
    exact within.width

theorem reached (h : Resting w u) : ∃ consumed m, Reached w u consumed m := by
  cases h with
  | unread => exact ⟨[], 0, .fresh⟩
  | reading h =>
    obtain ⟨group, i, reach, within⟩ := h
    exact ⟨_, _, .within [] 0 (Nat.zero_mul _).symm reach within⟩

/-- **Any read leaves the unpacker at work.** -/
theorem atWork_read (h : Resting w u) (positive : 0 < w.bits) (s : σ) :
    AtWork w (u.read s).2.1 := by
  obtain ⟨consumed, m, reached⟩ := h.reached
  exact reached.atWork_read positive s

theorem read (h : Resting w u) (s : σ) : Resting w (u.read s).2.1 := by
  rcases Nat.eq_zero_or_pos w.bits with zero | positive
  · rw [read_of_bits_eq_zero (by rw [h.width_eq, zero])]
    exact h
  · exact .reading (h.atWork_read positive s)

theorem remaining_le (h : Resting w u) : u.remaining ≤ w.groupValues := by
  cases h with
  | unread => exact Nat.zero_le _
  | reading h =>
    obtain ⟨_, i, _, within⟩ := h
    exact Nat.le.intro within.index

theorem loaded_le (h : Resting w u) : u.loaded ≤ w.groupBytes := by
  cases h with
  | unread => exact Nat.zero_le _
  | reading h =>
    obtain ⟨_, _, _, within⟩ := h
    rw [within.loaded]
    exact within.fits

theorem register_lt (h : Resting w u) : u.register.toNat < 2 ^ (8 * w.groupBytes) := by
  cases h with
  | unread => exact Nat.two_pow_pos _
  | reading h =>
    obtain ⟨_, _, _, within⟩ := h
    exact within.register_lt

theorem testBit_register (h : Resting w u) {j : Nat} (below : j < 8 * (w.groupBytes - u.loaded)) :
    u.register.toNat.testBit j = false := by
  cases h with
  | unread => exact Nat.zero_testBit j
  | reading h =>
    obtain ⟨_, _, _, within⟩ := h
    exact within.testBit_register below

/-- **Every step of the next read goes well**, on any source. -/
theorem readWatched_eq (h : Resting w u) (positive : 0 < w.bits) (s : σ) :
    u.readWatched s = some (u.read s) := by
  obtain ⟨consumed, m, reached⟩ := h.reached
  obtain ⟨-, group, -, i, -, -, -, -, hi, opened⟩ := reached.opened positive
  have wide : ¬ u.width.bits = 0 := by
    rw [h.width_eq]
    exact Nat.pos_iff_ne_zero.1 positive
  rw [readWatched, if_neg wide, Unpacker.read, if_neg wide, opened.readOpenWatched_eq hi]

end Resting

end Read

end Unpacker

/-! ## 3. Sessions -/

theorem BitWidth.ofUInt32_ne_ok {width : UInt32} (wide : 8 < width.toNat) (w : BitWidth) :
    ofUInt32 width ≠ .ok w := by
  rw [ofUInt32_eq_error_iff.2 ⟨wide, rfl⟩]
  nofun

namespace UnpackSession

variable {σ κ : Type} [Source σ] {obey : σ → κ → σ} {x : UnpackSession σ} {w : BitWidth}
  {P : Unpacker → Prop}

/-- **What every read keeps, an action keeps**, if a new unpacker has it where the action puts one in
    the place of the old. -/
theorem perform_keeps (reads : ∀ (u : Unpacker) (s : σ), P u → P (u.read s).2.1)
    {action : UnpackAction κ}
    (renews : ∀ width w, action = .renew width → BitWidth.ofUInt32 width = .ok w → P (.new w))
    (h : P x.unpacker) : P (x.perform obey action).2.unpacker := by
  cases action with
  | read => exact reads x.unpacker x.source h
  | takeByte =>
    simp only [perform]
    split
    · exact h
    · exact h
  | renew width =>
    simp only [perform]
    split
    · exact renews width _ rfl ‹_›
    · exact h
  | order o => exact h

/-- **What every read keeps, a session keeps.** -/
theorem run_keeps (reads : ∀ (u : Unpacker) (s : σ), P u → P (u.read s).2.1)
    {actions : List (UnpackAction κ)}
    (renews : ∀ width w, .renew width ∈ actions → BitWidth.ofUInt32 width = .ok w → P (.new w))
    (h : P x.unpacker) : P (x.run obey actions).2.unpacker := by
  induction actions generalizing x with
  | nil => exact h
  | cons action actions ih =>
    refine ih (fun width w member => renews width w (List.mem_cons_of_mem action member))
      (perform_keeps reads (fun width w first => renews width w ?_) h)
    rw [first]
    exact List.mem_cons_self ..

/-- **A session keeps its unpacker within its bounds**, whatever the source does. -/
theorem resting_run (obey : σ → κ → σ) (x : UnpackSession σ) (fresh : x.unpacker = .new w)
    (actions : List (UnpackAction κ)) {last : UnpackSession σ}
    (ran : (x.run obey actions).2 = last) :
    Unpacker.Resting last.unpacker.width last.unpacker := by
  have within : ∃ w, Unpacker.Resting w (x.run obey actions).2.unpacker := by
    refine run_keeps (P := fun u => ∃ w, Unpacker.Resting w u)
      (fun u s ⟨w, h⟩ => ⟨w, h.read s⟩) (fun _ w _ _ => ⟨w, .unread⟩) ⟨w, ?_⟩
    rw [fresh]
    exact .unread
  rw [ran] at within
  obtain ⟨w', h⟩ := within
  rwa [h.width_eq]

/-- **Once a read was tried, the unpacker is at work**, as long as it is not replaced. -/
theorem atWork_run (obey : σ → κ → σ) (x : UnpackSession σ) (fresh : x.unpacker = .new w)
    (before after : List (UnpackAction κ))
    (kept : ∀ width, .renew width ∈ after → 8 < width.toNat) {last : UnpackSession σ}
    (ran : (x.run obey (before ++ .read :: after)).2 = last)
    (positive : 0 < last.unpacker.width.bits) :
    Unpacker.AtWork last.unpacker.width last.unpacker := by
  rw [run_append] at ran
  have resting := x.resting_run obey fresh before rfl
  generalize (x.run obey before).2 = y at ran resting
  have tail : ((y.perform obey .read).2.run obey after).2 = last := ran
  have refused : ∀ {Q : Unpacker → Prop} width w', .renew width ∈ after →
      BitWidth.ofUInt32 width = .ok w' → Q (.new w') :=
    fun width w' member taken => absurd taken (BitWidth.ofUInt32_ne_ok (kept width member) w')
  have same : Unpacker.Resting y.unpacker.width last.unpacker := by
    rw [← tail]
    exact run_keeps (P := Unpacker.Resting y.unpacker.width) (fun u s h => h.read s) refused
      (resting.read y.source)
  rw [same.width_eq] at positive ⊢
  rw [← tail]
  exact run_keeps (P := Unpacker.AtWork y.unpacker.width)
    (fun u s h => (Unpacker.Resting.reading h).atWork_read positive s) refused
    (resting.atWork_read positive y.source)

end UnpackSession

end PackedInts
