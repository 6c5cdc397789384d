import Mathlib
import PackedInts.Proofs.Command.Arguments
import PackedInts.Proofs.Command.Outcome
import PackedInts.Proofs.Packing.Layout

/-!
# Packing any list of values

A packer drops the bits of a value above its width. On the command line that never shows: the whole
list is tested before anything is opened, and the test lets exactly those lists through of which the
packer drops nothing. So an output, if there is one, spells every value whole.

* `Bits.Spells` -- a bit string that spells values whole, one field for each;
* `Bits.spells_iff` -- there is one exactly if all values fit, and it is the one that a packer sends;
* `firstTooWide_eq_none_iff`, `firstTooWide_eq_some_iff` -- what the test before a packing says;
* `packProduct_of_fits` -- what is made of a list whose values all fit;
* **`run_pack_of_values`** -- a run on any list of values.
-/

namespace PackedInts

/-! ## 1. Values spelled whole -/

namespace Bits

/-- The bits spell the values whole: each value has a field of `w` bits, and the number that the field
    spells is the value itself. -/
inductive Spells (w : Nat) : List UInt32 → List Bool → Prop
  | nil : Spells w [] []
  | cons {v : UInt32} {vs : List UInt32} {field rest : List Bool} (size : field.length = w)
      (number : toNat field = v.toNat) (others : Spells w vs rest) :
      Spells w (v :: vs) (field ++ rest)

variable {w : Nat} {vs : List UInt32} {bits : List Bool}

/-- Only values that fit are spelled whole. -/
theorem Spells.fits (h : Spells w vs bits) : ∀ v ∈ vs, v.toNat < 2 ^ w := by
  induction h with
  | nil => exact fun _ member => absurd member List.not_mem_nil
  | @cons v vs field rest size number others ih =>
    have first : v.toNat < 2 ^ w := by
      rw [← number, ← size]
      exact toNat_lt field
    exact List.forall_mem_cons.2 ⟨first, ih⟩

/-- They are spelled by their low bits, in one way only. -/
theorem Spells.eq_ofValues (h : Spells w vs bits) : bits = ofValues w vs := by
  induction h with
  | nil => rfl
  | @cons v vs field rest size number others ih =>
    rw [ofValues_cons, ← number, ← size, ofNat_toNat, size, ih]

/-- **The low bits of values that fit spell them whole.** -/
theorem spells_ofValues (fit : ∀ v ∈ vs, v.toNat < 2 ^ w) : Spells w vs (ofValues w vs) := by
  induction vs with
  | nil => exact .nil
  | cons v vs ih =>
    obtain ⟨first, others⟩ := List.forall_mem_cons.1 fit
    refine .cons (length_ofNat w v.toNat) ?_ (ih others)
    rw [toNat_ofNat, Nat.mod_eq_of_lt first]

/-- **Values are spelled whole exactly if all of them fit**, by their low bits. -/
theorem spells_iff : Spells w vs bits ↔ (∀ v ∈ vs, v.toNat < 2 ^ w) ∧ bits = ofValues w vs := by
  constructor
  · exact fun h => ⟨h.fits, h.eq_ofValues⟩
  · rintro ⟨fit, rfl⟩
    exact spells_ofValues fit

end Bits

/-! ## 2. The test before a packing -/

section Test

variable {w : BitWidth} {vs : List UInt32}

/-- The mask of a width is its largest value. -/
theorem lowMask_lt_iff (w : BitWidth) (v : UInt32) :
    lowMask w.bits < v.toUInt64 ↔ 2 ^ w.bits ≤ v.toNat := by
  have below : w.bits < 64 := Nat.lt_of_le_of_lt w.bits_le (by decide)
  have positive : 0 < 2 ^ w.bits := Nat.two_pow_pos _
  rw [UInt64.lt_iff_toNat_lt, toNat_lowMask below, UInt32.toNat_toUInt64]
  omega

/-- **No value is too wide exactly if all of them fit.** -/
theorem firstTooWide_eq_none_iff : firstTooWide w vs = none ↔ ∀ v ∈ vs, v.toNat < 2 ^ w.bits := by
  unfold firstTooWide
  rw [List.find?_eq_none]
  simp only [decide_eq_true_iff, lowMask_lt_iff, Nat.not_le]
  constructor
  · intro none v member
    obtain ⟨position, inside, rfl⟩ := List.mem_iff_getElem.1 member
    exact none (vs[position], position) (List.mem_zipIdx_iff_getElem?.2
      (List.getElem?_eq_getElem inside))
  · intro all entry member
    exact all _ (List.fst_mem_of_mem_zipIdx member)

/-- **Otherwise it is the first that does not fit**, and its position is the number of those in front
    of it. -/
theorem firstTooWide_eq_some_iff {v : UInt32} {position : Nat} :
    firstTooWide w vs = some (v, position) ↔ ∃ front back, vs = front ++ v :: back ∧
      position = front.length ∧ (∀ u ∈ front, u.toNat < 2 ^ w.bits) ∧ 2 ^ w.bits ≤ v.toNat := by
  constructor
  · intro found
    unfold firstTooWide at found
    obtain ⟨wide, passed, others, split, narrow⟩ := List.find?_eq_some_iff_append.1 found
    obtain ⟨front, behind, rfl, rfl, tail⟩ := List.zipIdx_eq_append_iff.1 split
    obtain ⟨_, back, rfl, here, -⟩ := List.zipIdx_eq_cons_iff.1 tail.symm
    obtain ⟨rfl, rfl⟩ := Prod.mk.inj here
    have fit : firstTooWide w front = none := by
      unfold firstTooWide
      rw [List.find?_eq_none]
      intro entry member
      simpa using narrow entry member
    exact ⟨front, back, rfl, Nat.zero_add _, firstTooWide_eq_none_iff.1 fit,
      (lowMask_lt_iff w v).1 (of_decide_eq_true wide)⟩
  · rintro ⟨front, back, rfl, rfl, fit, wide⟩
    have before : firstTooWide w front = none := firstTooWide_eq_none_iff.2 fit
    have here := decide_eq_true ((lowMask_lt_iff w v).2 wide)
    unfold firstTooWide at before ⊢
    rw [List.zipIdx_append, List.find?_append, before, Option.none_or, Nat.zero_add, List.zipIdx_cons,
      List.find?_cons, here]

end Test

/-! ## 3. What is made of a list -/

section Make

variable {τ σ : Type} {codec : Base64.Codec τ σ} {w : BitWidth} {vs : List UInt32}
  {text content : Bytes}

/-- **What is made of a list whose values all fit**, as long as its packed bytes have a form in which
    they can be written. -/
theorem packProduct_of_fits {base64 : Bool} (parsed : ValueList.parse text = .ok vs)
    (fit : ∀ v ∈ vs, v.toNat < 2 ^ w.bits)
    (stored : packedContent codec base64 (Bits.packed w.bits vs) = .ok content) :
    packProduct codec w base64 text = ⟨[], .ok (content,
      packSummary vs.length (Bits.packed w.bits vs).length)⟩ := by
  have packed := pack_of_supported w.toUInt32_supported vs
  rw [w.toNat_toUInt32] at packed
  unfold packProduct
  rw [parsed]
  dsimp only
  rw [firstTooWide_eq_none_iff.2 fit]
  dsimp only
  rw [packed]
  dsimp only
  rw [stored]

/-- **What is made of any other list**: an error that names the first value that does not fit. -/
theorem exists_tooWide (base64 : Bool) (parsed : ValueList.parse text = .ok vs)
    (wide : ¬ ∀ v ∈ vs, v.toNat < 2 ^ w.bits) :
    ∃ front v back, vs = front ++ v :: back ∧ (∀ u ∈ front, u.toNat < 2 ^ w.bits) ∧
      2 ^ w.bits ≤ v.toNat ∧
      packProduct codec w base64 text = ⟨[], .error (.valueTooWide v front.length w)⟩ := by
  obtain ⟨⟨v, position⟩, found⟩ := Option.ne_none_iff_exists'.1 (mt firstTooWide_eq_none_iff.1 wide)
  obtain ⟨front, back, split, rfl, fit, beyond⟩ := firstTooWide_eq_some_iff.1 found
  exact ⟨front, v, back, split, fit, beyond, packProduct_of_tooWide codec parsed found base64⟩

end Make

/-! ## 4. A run -/

section Run

variable {τ σ : Type} (codec : Base64.Codec τ σ) {w : BitWidth} {vs : List UInt32}
  {input output text content : Bytes} {t : FileTree} {arguments : List Bytes}

/-- A packing of values that all fit writes them packed. -/
theorem run_pack_of_fitting {base64 : Bool} (given : t.read input = .ok text)
    (parsed : ValueList.parse text = .ok vs) (fit : ∀ v ∈ vs, v.toNat < 2 ^ w.bits)
    (stored : packedContent codec base64 (Bits.packed w.bits vs) = .ok content)
    (opens : t.Opens output)
    (asked : Request.parse arguments = .ok (.pack w base64 input output)) :
    ∃ t', runWith codec arguments t
        = (.success (packSummary vs.length (byteCount (vs.length * w.bits))) [], t') ∧
      t.Writes t' output content := by
  obtain ⟨t', written⟩ := FileTree.write_of_opens opens content
  refine ⟨t', ?_, FileTree.write_of_ok written⟩
  rw [runWith_of_parse_ok asked, ← Bits.length_packed]
  exact Job.perform_of_written (FileTree.readInput_eq_ok_iff.2 given)
    (packProduct_of_fits parsed fit stored) written

/-- A packing of any other values fails before the output is opened, and leaves the tree alone. -/
theorem run_pack_of_tooWide (base64 : Bool) (given : t.read input = .ok text)
    (parsed : ValueList.parse text = .ok vs) (wide : ¬ ∀ v ∈ vs, v.toNat < 2 ^ w.bits)
    (asked : Request.parse arguments = .ok (.pack w base64 input output)) :
    ∃ front v back, vs = front ++ v :: back ∧ (∀ u ∈ front, u.toNat < 2 ^ w.bits) ∧
      2 ^ w.bits ≤ v.toNat ∧
      runWith codec arguments t = (.failure [] (.valueTooWide v front.length w), t) := by
  obtain ⟨front, v, back, split, fit, beyond, unmade⟩ := exists_tooWide base64 parsed wide
  refine ⟨front, v, back, split, fit, beyond, ?_⟩
  rw [runWith_of_parse_ok asked]
  exact Job.perform_of_unmade (FileTree.readInput_eq_ok_iff.2 given) unmade

/-- **A run that packs any list of values** succeeds exactly if all of them fit the width. Then the
    output holds the bits that spell them whole, filled with zero bits to the next byte, and the
    summary names the number of values and of bytes. Otherwise the run fails, names the first value
    that does not fit with its position, and leaves the tree alone. -/
theorem run_pack_of_values (given : t.read input = .ok text)
    (parsed : ValueList.parse text = .ok vs) (opens : t.Opens output) :
    Request.parse (packArguments w false input output) = .ok (.pack w false input output) ∧
      ∀ arguments, Request.parse arguments = .ok (.pack w false input output) →
        ∃ report t', runWith codec arguments t = (report, t') ∧
          (report.exit = 0 ↔ ∀ v ∈ vs, v.toNat < 2 ^ w.bits) ∧
          ((∀ v ∈ vs, v.toNat < 2 ^ w.bits) →
            (∃ bytes bits, t'.read output = .ok bytes ∧ Bits.Spells w.bits vs bits ∧
              (∃ zeros < 8, Bits.ofBytes bytes = bits ++ List.replicate zeros false) ∧
              bytes.length = byteCount (vs.length * w.bits)) ∧
            report.stderr = [] ∧
            report.stdout = ascii "Packed " ++ Numeral.decimal vs.length ++ ascii " values into "
              ++ Numeral.decimal (byteCount (vs.length * w.bits))
              ++ ascii " bytes\nPacking completed successfully\n") ∧
          ((¬ ∀ v ∈ vs, v.toNat < 2 ^ w.bits) →
            report.exit = 1 ∧ t' = t ∧ report.stdout = [] ∧
            ∃ front v back, vs = front ++ v :: back ∧ (∀ u ∈ front, u.toNat < 2 ^ w.bits) ∧
              2 ^ w.bits ≤ v.toNat ∧
              report.stderr = ascii "Error: " ++ (ascii "Value " ++ Numeral.decimal v.toNat
                ++ ascii " at position " ++ Numeral.decimal front.length
                ++ ascii " does not fit in " ++ Numeral.decimal w.bits ++ ascii " bits")
                ++ ascii "\n") := by
  refine ⟨parse_packArguments (FileTree.ne_nil_of_read given) opens.ne_nil,
    fun arguments asked => ?_⟩
  by_cases fit : ∀ v ∈ vs, v.toNat < 2 ^ w.bits
  · obtain ⟨t', ended, writes⟩ := run_pack_of_fitting codec given parsed fit rfl opens asked
    refine ⟨_, _, ended, iff_of_true rfl fit, fun _ => ⟨?_, rfl, rfl⟩,
      fun wide => absurd fit wide⟩
    refine ⟨Bits.packed w.bits vs, Bits.ofValues w.bits vs, writes.read, Bits.spells_iff.2 ⟨fit, rfl⟩,
      ⟨Bits.missing (Bits.ofValues w.bits vs).length, ?_, Bits.ofBytes_packed _ _⟩,
      Bits.length_packed _ _⟩
    simp only [Bits.missing, byteCount]
    omega
  · obtain ⟨front, v, back, split, before, beyond, ended⟩ :=
      run_pack_of_tooWide codec false given parsed fit asked
    have failed : (1 : UInt32) ≠ 0 := by decide
    exact ⟨_, _, ended, iff_of_false failed fit, fun all => absurd all fit,
      fun _ => ⟨rfl, rfl, rfl, front, v, back, split, before, beyond, rfl⟩⟩

end Run

/-- Three values of three bits that fit; and a list of which the third value and the fourth do not. -/
theorem run_pack_of_values_three_bits :
    (∃ t report t', t = .ofEntries [(ascii "v", some (ascii "5 03,2"))] ∧
      run (packArguments ⟨3, by decide⟩ false (ascii "v") (ascii "d/p")) t = (report, t') ∧
      report.exit = 0 ∧ t'.read (ascii "d/p") = .ok [0xAD, 0x00] ∧
      report.stdout
        = ascii "Packed 3 values into 2 bytes\nPacking completed successfully\n") ∧
    ∃ t report, t = .ofEntries [(ascii "v", some (ascii "5,7 8 300"))] ∧
      run (packArguments ⟨3, by decide⟩ false (ascii "v") (ascii "v")) t = (report, t) ∧
      report.exit = 1 ∧
      report.stderr = ascii "Error: Value 8 at position 2 does not fit in 3 bits\n" := by
  refine ⟨?_, ?_⟩
  · obtain ⟨t, tree⟩ : ∃ t : FileTree, t = .ofEntries [(ascii "v", some (ascii "5 03,2"))] :=
      ⟨_, rfl⟩
    have given : t.read (ascii "v") = .ok (ascii "5 03,2") := by
      subst tree
      decide +kernel
    have parsed : ValueList.parse (ascii "5 03,2") = .ok [5, 3, 2] := by decide +kernel
    have opens : t.Opens (ascii "d/p") := by
      subst tree
      decide +kernel
    obtain ⟨asked, ended⟩ := run_pack_of_values Base64.standardCodec (w := ⟨3, by decide⟩) given parsed
      opens
    obtain ⟨report, t', ran, success, packed, -⟩ := ended _ asked
    obtain ⟨⟨bytes, bits, read, spelled, ⟨zeros, few, filled⟩, -⟩, -, summary⟩ := packed (by simp)
    obtain rfl : bits = Bits.ofValues 3 [5, 3, 2] := (Bits.spells_iff.1 spelled).2
    have size := congrArg List.length filled
    rw [Bits.length_ofBytes, List.length_append, Bits.length_ofValues, List.length_replicate] at size
    obtain rfl : zeros = 7 := by
      simp only [List.length_cons, List.length_nil] at size
      omega
    have whole : Bits.toBytes (Bits.ofValues 3 [5, 3, 2] ++ List.replicate 7 false)
        = [0xAD, 0x00] := by
      decide +kernel
    rw [← filled, Bits.toBytes_ofBytes] at whole
    exact ⟨t, report, t', tree, ran, success.2 (by simp), whole ▸ read,
      summary.trans (by decide +kernel)⟩
  · obtain ⟨t, tree⟩ : ∃ t : FileTree, t = .ofEntries [(ascii "v", some (ascii "5,7 8 300"))] :=
      ⟨_, rfl⟩
    have given : t.read (ascii "v") = .ok (ascii "5,7 8 300") := by
      subst tree
      decide +kernel
    have parsed : ValueList.parse (ascii "5,7 8 300") = .ok [5, 7, 8, 300] := by decide +kernel
    have opens : t.Opens (ascii "v") := by
      subst tree
      decide +kernel
    obtain ⟨asked, ended⟩ := run_pack_of_values Base64.standardCodec (w := ⟨3, by decide⟩) given parsed
      opens
    obtain ⟨report, t', ran, -, -, refused⟩ := ended _ asked
    obtain ⟨exit_one, rfl, -, front, v, back, split, fit, beyond, stderr⟩ := refused (by simp)
    refine ⟨_, report, tree, ran, exit_one, ?_⟩
    rcases front with _ | ⟨first, _ | ⟨second, _ | ⟨third, front⟩⟩⟩
    all_goals simp only [List.cons_append, List.nil_append, List.cons.injEq] at split
    · obtain ⟨rfl, -⟩ := split
      exact absurd beyond (by decide)
    · obtain ⟨-, rfl, -⟩ := split
      exact absurd beyond (by decide)
    · obtain ⟨rfl, rfl, rfl, -⟩ := split
      exact stderr.trans (by decide +kernel)
    · obtain ⟨-, -, rfl, -⟩ := split
      exact absurd (fit 8 (by simp)) (by decide)

end PackedInts
