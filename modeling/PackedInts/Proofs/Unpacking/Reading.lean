import PackedInts.Unpacker
import PackedInts.Source.Memory
import PackedInts.Proofs.BitString
import PackedInts.Proofs.Register

/-!
# How far an unpacker has read

An unpacker is described against all the bytes that it ever took from its source: so many values
were read, and the bytes taken are exactly those that these values reach into. The description holds
between any two reads, whether they fail or not, so a read that failed can be made again.

* `Delivers` -- a source delivers a run of bytes, one attempt each;
* `Unpacker.Loaded` -- what the register and the counters say about the group at work;
* `Unpacker.Reached` -- the unpacker has read `m` values out of the bytes `consumed`;
* `Unpacker.Reached.read_of_held`, `Unpacker.Reached.read_of_some`, `Unpacker.Reached.read_of_none`,
  `Unpacker.Reached.read_of_error` -- what a read does, by what the source does;
* **`Unpacker.Reached.readMany_of_delivers`** -- a run of reads gives the windows of the bytes.
-/

namespace PackedInts

/-! ## 1. Runs of bytes from a source -/

/-- The source delivers these bytes in order, one at each attempt, and is left as `s'`. -/
inductive Delivers {σ : Type} [Source σ] : σ → Bytes → σ → Prop
  | done (s : σ) : Delivers s [] s
  | more {s t s' : σ} {b : UInt8} {bs : Bytes} (first : poll s = (.ok (some b), t))
      (others : Delivers t bs s') : Delivers s (b :: bs) s'

theorem MemorySource.delivers (bs rest : Bytes) :
    Delivers (MemorySource.mk (bs ++ rest)) bs (MemorySource.mk rest) := by
  induction bs with
  | nil => exact .done _
  | cons b bs ih => exact .more (MemorySource.poll_cons b _) ih

theorem Delivers.of_append {σ : Type} [Source σ] {s s'' : σ} {xs ys : Bytes}
    (h : Delivers s (xs ++ ys) s'') : ∃ s', Delivers s xs s' ∧ Delivers s' ys s'' := by
  induction xs generalizing s with
  | nil => exact ⟨s, .done s, h⟩
  | cons b xs ih =>
    cases h with
    | more first others =>
      obtain ⟨s', front, back⟩ := ih others
      exact ⟨s', .more first front, back⟩

namespace Unpacker

/-! ## 2. The group at work -/

/-- **The unpacker is within a group**: `i` of its values are read, its first bytes `group` are
    loaded, and the register holds them at its top with zero bits below. -/
structure Loaded (w : BitWidth) (u : Unpacker) (group : Bytes) (i : Nat) : Prop where
  width : u.width = w
  positive : 0 < w.bits
  index : u.remaining + i = w.groupValues
  fits : group.length ≤ w.groupBytes
  loaded : u.loaded = group.length
  register : u.register.toNat = Bits.toNat (Bits.ofBytes group
    ++ List.replicate (8 * (w.groupBytes - group.length)) false)

theorem loaded_openGroup {u : Unpacker} {w : BitWidth} (width : u.width = w)
    (positive : 0 < w.bits) (empty : u.remaining = 0) : Loaded w u.openGroup [] 0 := by
  rw [openGroup, if_pos empty]
  refine ⟨width, positive, ?_, Nat.zero_le _, rfl, ?_⟩
  · rw [width, Nat.add_zero]
  · rw [Bits.ofBytes_nil, List.nil_append, Bits.toNat_replicate_false]
    rfl

namespace Loaded

variable {w : BitWidth} {u : Unpacker} {group : Bytes} {i : Nat}

theorem openGroup (h : Loaded w u group i) (hi : i < w.groupValues) : u.openGroup = u := by
  have := h.index
  rw [Unpacker.openGroup, if_neg (by omega)]

/-- The bits of what is loaded, filled with zero bits up to a group. -/
theorem length_filled (h : Loaded w u group i) : (Bits.ofBytes group
    ++ List.replicate (8 * (w.groupBytes - group.length)) false).length = 8 * w.groupBytes := by
  have fits := h.fits
  rw [List.length_append, Bits.length_ofBytes, List.length_replicate]
  omega

/-- **The register holds the bytes that are loaded**, above a byte's place and zero bits below. -/
theorem register_high (h : Loaded w u group i) (room : group.length < w.groupBytes) :
    u.register.toNat = Bits.toNat (Bits.ofBytes group)
      * 2 ^ (8 + 8 * (w.groupBytes - 1 - group.length)) := by
  have below : w.groupBytes - group.length = 1 + (w.groupBytes - 1 - group.length) := by omega
  rw [h.register, Bits.toNat_append_zeros, below, Nat.mul_add]

/-- A byte's place is within the register. -/
theorem place_le (h : Loaded w u group i) (room : group.length < w.groupBytes) :
    8 + 8 * (w.groupBytes - 1 - group.length) ≤ 56 := by
  have small := (w.group_bounds h.positive).2.2.2
  omega

/-- **A byte is placed below those loaded before.** -/
theorem place (h : Loaded w u group i) (room : group.length < w.groupBytes) (b : UInt8) :
    Loaded w (u.place b) (group ++ [b]) i := by
  have within := h.place_le room
  have high := h.register_high room
  obtain ⟨rfl, positive, index, -, loaded, register⟩ := id h
  have grown : (group ++ [b]).length = group.length + 1 := by
    rw [List.length_append, List.length_singleton]
  refine ⟨rfl, positive, index, ?_, ?_, ?_⟩
  · rw [grown]
    exact room
  · rw [grown, ← loaded]
    rfl
  · -- the register before ends in the byte's eight places and the zero bits behind it
    have shifted := toNat_shiftLeft_byte b (within.trans (by decide))
    have joined := toNat_or_of_aligned high (by rw [shifted]; exact byte_mul_lt b _)
    have rest : u.width.groupBytes - (group ++ [b]).length
        = u.width.groupBytes - 1 - group.length := by
      rw [grown]
      omega
    rw [Unpacker.place, loaded, joined, shifted, rest, Bits.toNat_append_zeros, Bits.ofBytes_append,
      Bits.toNat_append, Bits.ofBytes_cons, Bits.ofBytes_nil, List.append_nil, Bits.length_ofNat,
      Bits.toNat_ofNat, Nat.mod_eq_of_lt b.toNat_lt, Nat.add_mul, Nat.pow_add, Nat.mul_assoc]

/-- The value at hand is the window of the group's bits at its place. -/
theorem valueAbove (h : Loaded w u group i) (hi : i < w.groupValues)
    (reach : i * w.bits + w.bits ≤ 8 * group.length) : u.valueAbove (u.remaining - 1)
      = (Bits.window (Bits.ofBytes group) (i * w.bits) w.bits).toUInt32 := by
  obtain ⟨rfl, positive, index, fits, -, register⟩ := id h
  have small := (u.width.group_bounds positive).2.2.2
  have narrow := u.width.bits_le
  have len := h.length_filled
  have below : 8 * u.width.groupBytes - (i * u.width.bits + u.width.bits)
      = (u.remaining - 1) * u.width.bits := by
    have split : u.width.groupValues = u.remaining - 1 + (i + 1) := by omega
    rw [← u.width.values_mul_bits, split, Nat.add_mul, Nat.succ_mul, Nat.add_sub_cancel]
  have window : ((u.register >>> ((u.remaining - 1) * u.width.bits).toUInt64)
      &&& lowMask u.width.bits).toNat
        = Bits.window (Bits.ofBytes group) (i * u.width.bits) u.width.bits := by
    have left : i * u.width.bits + u.width.bits ≤ (Bits.ofBytes group).length := by
      rw [Bits.length_ofBytes]
      exact reach
    rw [← Bits.window_append_left left
        (List.replicate (8 * (u.width.groupBytes - group.length)) false),
      Bits.window_eq_div_mod (by omega), len, below, ← register, toNat_and_lowMask _ (by omega),
      toNat_shiftRight_amount _ (by omega)]
  rw [Unpacker.valueAbove, ← window]
  apply UInt32.toNat_inj.1
  rw [UInt64.toNat_toUInt32, UInt32.toNat_ofNat']

theorem pass (h : Loaded w u group i) (hi : i < w.groupValues) :
    Loaded w { u with remaining := u.remaining - 1 } group (i + 1) := by
  refine ⟨h.width, h.positive, ?_, h.fits, h.loaded, h.register⟩
  have := h.index
  show u.remaining - 1 + (i + 1) = w.groupValues
  omega

/-- What is still to be loaded for the value at hand. -/
theorem missingBytes (h : Loaded w u group i) :
    u.neededBytes - u.loaded = byteCount ((i + 1) * w.bits) - group.length := by
  have index : w.groupValues - u.remaining + 1 = i + 1 := by
    have := h.index
    omega
  rw [Unpacker.neededBytes, h.width, index, h.loaded]

theorem missing_of_needs (h : Loaded w u group i)
    (needs : byteCount ((i + 1) * w.bits) = group.length + 1) :
    u.neededBytes - u.loaded = 1 := by
  rw [h.missingBytes, needs, Nat.add_sub_cancel_left]

/-! ## 3. One read within a group -/

variable {σ : Type} [Source σ] {s s' : σ}

theorem readOpen_of_held (h : Loaded w u group i) (hi : i < w.groupValues)
    (held : byteCount ((i + 1) * w.bits) = group.length) (s : σ) :
    u.readOpen s = (.ok (Bits.window (Bits.ofBytes group) (i * w.bits) w.bits).toUInt32,
      { u with remaining := u.remaining - 1 }, s) := by
  have reach : i * w.bits + w.bits ≤ 8 * group.length := by
    rw [← held, ← Nat.succ_mul]
    exact le_eight_mul_byteCount _
  have nothing : u.neededBytes - u.loaded = 0 := by
    rw [h.missingBytes, held, Nat.sub_self]
  rw [readOpen, nothing, load]
  simp only [h.valueAbove hi reach]

theorem readOpen_of_some (h : Loaded w u group i) (hi : i < w.groupValues)
    (room : group.length < w.groupBytes)
    (needs : byteCount ((i + 1) * w.bits) = group.length + 1) {b : UInt8}
    (hp : poll s = (.ok (some b), s')) :
    u.readOpen s = (.ok (Bits.window (Bits.ofBytes (group ++ [b])) (i * w.bits) w.bits).toUInt32,
      { u.place b with remaining := u.remaining - 1 }, s') := by
  have reach : i * w.bits + w.bits ≤ 8 * (group ++ [b]).length := by
    rw [List.length_append, List.length_singleton, ← needs, ← Nat.succ_mul]
    exact le_eight_mul_byteCount _
  have value := (h.place room b).valueAbove hi reach
  rw [readOpen, h.missing_of_needs needs, load, hp]
  simp only [load, value]
  rfl

theorem readOpen_of_none (h : Loaded w u group i)
    (needs : byteCount ((i + 1) * w.bits) = group.length + 1) (hp : poll s = (.ok none, s')) :
    u.readOpen s = (.error .exhausted, u, s') := by
  rw [readOpen, h.missing_of_needs needs, load, hp]

theorem readOpen_of_error (h : Loaded w u group i)
    (needs : byteCount ((i + 1) * w.bits) = group.length + 1) {fault : SourceFault}
    (hp : poll s = (.error fault, s')) : u.readOpen s = (.error (.source fault), u, s') := by
  rw [readOpen, h.missing_of_needs needs, load, hp]

end Loaded

/-! ## 4. All reads so far -/

/-- **The unpacker of width `w` has read `m` values out of the bytes `consumed`.** It is as it was
    made, or within a group behind whole groups; at width zero it stays as it was made. -/
inductive Reached (w : BitWidth) : Unpacker → Bytes → Nat → Prop
  | idle (zero : w.bits = 0) (m : Nat) : Reached w (.new w) [] m
  | fresh : Reached w (.new w) [] 0
  | within {u : Unpacker} {group : Bytes} {i : Nat} (groups : Bytes) (q : Nat)
      (whole : groups.length = q * w.groupBytes) (reach : group.length = byteCount (i * w.bits))
      (h : Loaded w u group i) : Reached w u (groups ++ group) (q * w.groupValues + i)

namespace Reached

variable {w : BitWidth} {u : Unpacker} {consumed : Bytes} {m : Nat}

theorem width_eq (h : Reached w u consumed m) : u.width = w := by
  cases h with
  | idle => rfl
  | fresh => rfl
  | within _ _ _ _ h => exact h.width

/-- **The bytes taken are those that the values reach into**, no more and no fewer. -/
theorem length_consumed (h : Reached w u consumed m) :
    consumed.length = byteCount (m * w.bits) := by
  cases h with
  | idle zero m => rw [zero, Nat.mul_zero]; rfl
  | fresh => rw [Nat.zero_mul]; rfl
  | within groups q whole reach h =>
    rw [byteCount_groups, List.length_append, whole, reach]

/-- The next value is in a group that is not used up, behind whole groups. -/
theorem opened (h : Reached w u consumed m) (positive : 0 < w.bits) :
    ∃ groups group q i, consumed = groups ++ group ∧ m = q * w.groupValues + i ∧
      groups.length = q * w.groupBytes ∧ group.length = byteCount (i * w.bits) ∧
      i < w.groupValues ∧ Loaded w u.openGroup group i := by
  have some := (w.group_bounds positive).1
  cases h with
  | idle zero => omega
  | fresh =>
    refine ⟨[], [], 0, 0, rfl, ?_, ?_, ?_, some, loaded_openGroup rfl positive rfl⟩
    · rw [Nat.zero_mul]
    · rw [Nat.zero_mul]; rfl
    · rw [Nat.zero_mul]; rfl
  | @within _ group i groups q whole reach h =>
    by_cases hi : i < w.groupValues
    · exact ⟨groups, group, q, i, rfl, rfl, whole, reach, hi, by rwa [h.openGroup hi]⟩
    · have last : i = w.groupValues := by
        have := h.index
        omega
      subst last
      have bytes : group.length = w.groupBytes := by
        rw [reach, w.values_mul_bits]
        exact byteCount_eight_mul _
      have used : u.remaining = 0 := by
        have := h.index
        omega
      refine ⟨groups ++ group, [], q + 1, 0, ?_, ?_, ?_, ?_, some,
        loaded_openGroup h.width positive used⟩
      · rw [List.append_nil]
      · rw [Nat.succ_mul, Nat.add_zero]
      · rw [List.length_append, whole, bytes, Nat.succ_mul]
      · rw [Nat.zero_mul]; rfl

/-- A window of a group's bits is one of all the bits taken, further back. -/
theorem window_groups {groups : Bytes} {q : Nat} (whole : groups.length = q * w.groupBytes)
    (group : Bytes) (i : Nat) :
    Bits.window (Bits.ofBytes (groups ++ group)) ((q * w.groupValues + i) * w.bits) w.bits
      = Bits.window (Bits.ofBytes group) (i * w.bits) w.bits := by
  have start : (q * w.groupValues + i) * w.bits = (Bits.ofBytes groups).length + i * w.bits := by
    rw [Bits.length_ofBytes, whole, Nat.add_mul, Nat.mul_assoc, w.values_mul_bits,
      Nat.mul_left_comm]
  rw [Bits.ofBytes_append, start, Bits.window_append_right]

/-! ## 5. The operations -/

variable {σ : Type} [Source σ] {s s' : σ}

theorem held_or_needs (h : Reached w u consumed m) :
    byteCount ((m + 1) * w.bits) = consumed.length ∨
      byteCount ((m + 1) * w.bits) = consumed.length + 1 := by
  rw [h.length_consumed]
  exact byteCount_succ_mul w m

theorem read_eq_readOpen (h : Reached w u consumed m) (positive : 0 < w.bits) (s : σ) :
    u.read s = u.openGroup.readOpen s := by
  rw [read, if_neg]
  rw [h.width_eq]
  omega

/-- **A value whose bytes are taken already is read without the source.** -/
theorem read_of_held (h : Reached w u consumed m)
    (held : byteCount ((m + 1) * w.bits) = consumed.length) (s : σ) :
    ∃ u', u.read s
        = (.ok (Bits.window (Bits.ofBytes consumed) (m * w.bits) w.bits).toUInt32, u', s) ∧
      Reached w u' consumed (m + 1) := by
  rcases Nat.eq_zero_or_pos w.bits with zero | positive
  · have stays : Reached w u consumed (m + 1) := by
      cases h with
      | idle => exact .idle zero _
      | fresh => exact .idle zero _
      | within _ _ _ _ h => exact absurd h.positive (by omega)
    refine ⟨u, ?_, stays⟩
    rw [read_of_bits_eq_zero (by rw [h.width_eq, zero]), zero, Bits.window_zero_width]
    rfl
  · obtain ⟨groups, group, q, i, rfl, rfl, whole, reach, hi, loaded⟩ := h.opened positive
    have inGroup : byteCount ((i + 1) * w.bits) = group.length := by
      rw [Nat.add_assoc, byteCount_groups, List.length_append, whole] at held
      omega
    refine ⟨_, ?_, .within groups q whole inGroup.symm (loaded.pass hi)⟩
    rw [h.read_eq_readOpen positive, loaded.readOpen_of_held hi inGroup, window_groups whole]

/-- A value that reaches into one more byte, seen in its group. -/
theorem needs_in_group {groups group : Bytes} {q i : Nat} (whole : groups.length = q * w.groupBytes)
    (needs : byteCount ((q * w.groupValues + i + 1) * w.bits) = (groups ++ group).length + 1) :
    byteCount ((i + 1) * w.bits) = group.length + 1 := by
  rw [Nat.add_assoc, byteCount_groups, List.length_append, whole] at needs
  omega

theorem positive_of_needs (h : Reached w u consumed m)
    (needs : byteCount ((m + 1) * w.bits) = consumed.length + 1) : 0 < w.bits := by
  rcases Nat.eq_zero_or_pos w.bits with zero | positive
  · rw [h.length_consumed, zero] at needs
    simp [byteCount] at needs
  · exact positive

/-- **A value that reaches into one more byte takes it.** -/
theorem read_of_some (h : Reached w u consumed m)
    (needs : byteCount ((m + 1) * w.bits) = consumed.length + 1) {b : UInt8}
    (hp : poll s = (.ok (some b), s')) :
    ∃ u', u.read s
        = (.ok (Bits.window (Bits.ofBytes (consumed ++ [b])) (m * w.bits) w.bits).toUInt32,
          u', s') ∧
      Reached w u' (consumed ++ [b]) (m + 1) := by
  have positive := h.positive_of_needs needs
  obtain ⟨groups, group, q, i, rfl, rfl, whole, reach, hi, loaded⟩ := h.opened positive
  have inGroup := needs_in_group whole needs
  have room : group.length < w.groupBytes := by
    have most := w.byteCount_le_of_le (Nat.succ_le_of_lt hi)
    rwa [Nat.succ_eq_add_one, inGroup] at most
  have grown : (group ++ [b]).length = byteCount ((i + 1) * w.bits) := by
    rw [inGroup, List.length_append, List.length_singleton]
  rw [List.append_assoc]
  refine ⟨_, ?_, .within groups q whole grown ((loaded.place room b).pass hi)⟩
  rw [h.read_eq_readOpen positive, loaded.readOpen_of_some hi room inGroup hp, window_groups whole]
  rfl

/-- **A read that gets no byte leaves the unpacker where it was**, open for the next attempt. -/
theorem openGroup (h : Reached w u consumed m) (positive : 0 < w.bits) :
    Reached w u.openGroup consumed m := by
  obtain ⟨groups, group, q, i, rfl, rfl, whole, reach, -, loaded⟩ := h.opened positive
  exact .within groups q whole reach loaded

theorem read_of_none (h : Reached w u consumed m)
    (needs : byteCount ((m + 1) * w.bits) = consumed.length + 1) (hp : poll s = (.ok none, s')) :
    u.read s = (.error .exhausted, u.openGroup, s') := by
  have positive := h.positive_of_needs needs
  obtain ⟨groups, group, q, i, rfl, rfl, whole, -, -, loaded⟩ := h.opened positive
  rw [h.read_eq_readOpen positive, loaded.readOpen_of_none (needs_in_group whole needs) hp]

theorem read_of_error (h : Reached w u consumed m)
    (needs : byteCount ((m + 1) * w.bits) = consumed.length + 1) {fault : SourceFault}
    (hp : poll s = (.error fault, s')) :
    u.read s = (.error (.source fault), u.openGroup, s') := by
  have positive := h.positive_of_needs needs
  obtain ⟨groups, group, q, i, rfl, rfl, whole, -, -, loaded⟩ := h.opened positive
  rw [h.read_eq_readOpen positive, loaded.readOpen_of_error (needs_in_group whole needs) hp]

/-! ## 6. Runs of reads -/

/-- **A run of reads gives the windows of the bytes**: if the source delivers exactly the bytes that
    the values reach into, then every value is read, and the source is left behind these bytes. -/
theorem readMany_of_delivers {bs : Bytes} {n : Nat} (h : Reached w u consumed m)
    (supply : Delivers s bs s') (len : (consumed ++ bs).length = byteCount ((m + n) * w.bits)) :
    ∃ u', u.readMany s n = (.ok ((List.range n).map fun k =>
        (Bits.window (Bits.ofBytes (consumed ++ bs)) ((m + k) * w.bits) w.bits).toUInt32),
          u', s') ∧
      Reached w u' (consumed ++ bs) (m + n) := by
  induction n generalizing u consumed m bs s with
  | zero =>
    have nothing : bs = [] := by
      rw [List.length_append, h.length_consumed, Nat.add_zero] at len
      exact List.length_eq_zero_iff.1 (by omega)
    subst nothing
    cases supply with
    | done =>
      rw [List.append_nil]
      exact ⟨u, rfl, h⟩
  | succ n ih =>
    have places := map_range_add_succ
      (fun i => (Bits.window (Bits.ofBytes (consumed ++ bs)) (i * w.bits) w.bits).toUInt32) m n
    have count : m + (n + 1) = m + 1 + n := by omega
    rw [count] at len ⊢
    rw [places]
    -- a value takes at most one byte, so the supply is used up in step with the values
    rcases h.held_or_needs with held | needs
    · obtain ⟨u₁, first, reached⟩ := h.read_of_held held s
      obtain ⟨u', others, last⟩ := ih reached supply len
      refine ⟨u', ?_, last⟩
      have inside : m * w.bits + w.bits ≤ (Bits.ofBytes consumed).length := by
        rw [Bits.length_ofBytes, ← held, ← Nat.succ_mul]
        exact le_eight_mul_byteCount _
      rw [readMany_succ, first]
      simp only [others, Except.map]
      rw [Bits.ofBytes_append, Bits.window_append_left inside]
    · have more : consumed.length + 1 ≤ (consumed ++ bs).length := by
        rw [len, ← needs]
        exact byteCount_mono (Nat.mul_le_mul_right _ (Nat.le_add_right _ _))
      cases supply with
      | done =>
        rw [List.append_nil] at more
        exact absurd more (Nat.not_succ_le_self _)
      | @more _ t _ b bs polled others =>
        obtain ⟨u₁, first, reached⟩ := h.read_of_some needs polled
        rw [List.append_cons] at len ⊢
        obtain ⟨u', run, last⟩ := ih reached others len
        refine ⟨u', ?_, last⟩
        have inside : m * w.bits + w.bits ≤ (Bits.ofBytes (consumed ++ [b])).length := by
          rw [Bits.length_ofBytes, List.length_append, List.length_singleton, ← needs,
            ← Nat.succ_mul]
          exact le_eight_mul_byteCount _
        rw [readMany_succ, first]
        simp only [run, Except.map]
        rw [Bits.ofBytes_append (consumed ++ [b]), Bits.window_append_left inside]

end Reached

/-- A new unpacker reads the windows of the bytes that it is given. -/
theorem readMany_new {σ : Type} [Source σ] {s s' : σ} {w : BitWidth} {bs : Bytes} {n : Nat}
    (supply : Delivers s bs s') (len : bs.length = byteCount (n * w.bits)) :
    ∃ u, (Unpacker.new w).readMany s n = (.ok ((List.range n).map fun k =>
      (Bits.window (Bits.ofBytes bs) (k * w.bits) w.bits).toUInt32), u, s') := by
  obtain ⟨u, run, -⟩ := Reached.fresh.readMany_of_delivers supply
    (by rwa [List.nil_append, Nat.zero_add])
  simp only [List.nil_append, Nat.zero_add] at run
  exact ⟨u, run⟩

end Unpacker

end PackedInts
