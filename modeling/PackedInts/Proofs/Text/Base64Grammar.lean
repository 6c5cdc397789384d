import PackedInts.Proofs.Text.Base64Layout

/-!
# The grammar of base64 text

Between the blanks at its ends, base64 text is a run of characters of the alphabet with at most two
padding signs behind it, in whole groups of four. Every other text has a first character that may not
stand where it stands, and this one decides the error.

A text is cut behind the longest run of the alphabet in front. What follows there has one of four
forms, and each form settles what any reader from the left comes to.

* `Stripped` -- a text without the blanks at its ends; `stripped_trim`, it is what `trim` gives;
* `WellFormed` -- the grammar;
* `offence` -- what is wrong with the character at a place;
* `Tail`, `exists_tail` -- the four forms of what follows the first run of the alphabet;
* `ofBytes_bytesOnto` -- the bytes of codes have their leading bits;
* **`decode_ok_iff`**, **`decode_bits`**, **`offence_of_decode`** -- what is read, as which bytes, and
  why the rest is not.
-/

namespace PackedInts

/-! ## 1. Classes of bytes, and a text between blanks -/

namespace Base64

theorem isSpace_iff_mem_blanks (b : UInt8) : isSpace b = true ↔ b ∈ blanks :=
  forall_byte (P := fun b => isSpace b = true ↔ b ∈ blanks) (by decide +kernel) b

theorem glyph_of_code? {c : UInt8} {code : Nat} (h : code? c = some code) :
    code < 64 ∧ glyph code = c :=
  forall_byte (P := fun c => ∀ code ∈ code? c, code < 64 ∧ glyph code = c) (by decide +kernel) c
    code h

theorem alphabet_eq_glyphs : alphabet = (List.range 64).map glyph := by
  decide

theorem glyph_idxOf (c : UInt8) (h : c ∈ alphabet) : glyph (alphabet.idxOf c) = c := by
  rw [alphabet_eq_glyphs] at h
  obtain ⟨code, lt, rfl⟩ := List.mem_map.1 h
  rw [(glyph_in_alphabet code (List.mem_range.1 lt)).2]

theorem idxOf_lt {c : UInt8} (h : c ∈ alphabet) : alphabet.idxOf c < 64 :=
  List.idxOf_lt_length_of_mem h

/-- A character has a code if it is of the alphabet, which is then its place there. -/
theorem code?_eq (c : UInt8) :
    code? c = if c ∈ alphabet then some (alphabet.idxOf c) else none := by
  split
  · rename_i member
    have read := code?_glyph (alphabet.idxOf c) (idxOf_lt member)
    rwa [glyph_idxOf c member] at read
  · rename_i unknown
    refine Option.eq_none_iff_forall_ne_some.2 fun code known => unknown ?_
    obtain ⟨lt, rfl⟩ := glyph_of_code? known
    exact (glyph_in_alphabet code lt).1

theorem padding_not_mem_alphabet : padding ∉ alphabet := by
  decide

/-- A text without the blanks at its two ends. -/
structure Stripped (text s : Bytes) : Prop where
  between : ∃ l r, text = l ++ s ++ r ∧ (∀ b ∈ l, b ∈ blanks) ∧ ∀ b ∈ r, b ∈ blanks
  solid : ∀ b, s.head? = some b ∨ s.getLast? = some b → b ∉ blanks

theorem Stripped.length_le {text s : Bytes} (h : Stripped text s) : s.length ≤ text.length := by
  obtain ⟨l, r, rfl, -, -⟩ := h.between
  rw [List.length_append, List.length_append]
  omega

/-- A text from its first solid byte on starts with none of the blanks. -/
theorem not_blank_of_head? {text : Bytes} {b : UInt8}
    (first : (text.dropWhile isSpace).head? = some b) : b ∉ blanks := by
  intro blank
  have solid := List.head?_dropWhile_not isSpace text
  rw [first] at solid
  exact Bool.false_ne_true (solid.symm.trans ((isSpace_iff_mem_blanks b).2 blank))

/-- **Trimming takes the blanks off both ends**, and only these. -/
theorem stripped_trim (text : Bytes) : Stripped text (trim text) := by
  have front : text = text.takeWhile isSpace ++ text.dropWhile isSpace :=
    List.takeWhile_append_dropWhile.symm
  have back : text.dropWhile isSpace
      = trim text ++ ((text.dropWhile isSpace).reverse.takeWhile isSpace).reverse := by
    rw [trim, ← List.reverse_append, List.takeWhile_append_dropWhile, List.reverse_reverse]
  constructor
  · refine ⟨text.takeWhile isSpace, ((text.dropWhile isSpace).reverse.takeWhile isSpace).reverse,
      ?_, fun b member => ?_, fun b member => ?_⟩
    · rw [List.append_assoc, ← back]
      exact front
    · exact (isSpace_iff_mem_blanks b).1 (List.mem_takeWhile_imp member)
    · exact (isSpace_iff_mem_blanks b).1 (List.mem_takeWhile_imp (List.mem_reverse.1 member))
  · rintro b (first | last)
    · have start : (text.dropWhile isSpace).head? = some b := by
        rw [back, List.head?_append, first]
        rfl
      exact not_blank_of_head? start
    · rw [trim, List.getLast?_reverse] at last
      exact not_blank_of_head? last

/-! ## 2. The grammar and its offences -/

/-- A run of characters of the alphabet, with at most two padding signs behind it. -/
structure WellFormed (run : Bytes) (pads : Nat) (s : Bytes) : Prop where
  text : s = run ++ List.replicate pads padding
  few : pads ≤ 2
  known : ∀ c ∈ run, c ∈ alphabet

theorem WellFormed.length_eq {run s : Bytes} {pads : Nat} (h : WellFormed run pads s) :
    s.length = run.length + pads := by
  rw [h.text, List.length_append, List.length_replicate]

/-- What is wrong with the character at a place: a padding sign has two characters or more behind it,
    any other character is not of the alphabet or has a padding sign in front of it. -/
def offence (s : Bytes) (i : Nat) : Option Error :=
  match s[i]? with
  | none => none
  | some c =>
    if c = padding then if i + 2 < s.length then some .earlyPadding else none
    else if c ∈ alphabet ∧ padding ∉ s.take i then none
    else some .character

/-- No offence is one of the length. -/
theorem error_of_offence {s : Bytes} {i : Nat} {e : Error} (h : offence s i = some e) :
    e = .earlyPadding ∨ e = .character := by
  cases e with
  | length =>
    unfold offence at h
    grind
  | earlyPadding => exact .inl rfl
  | character => exact .inr rfl

section Run

variable {run : Bytes} (known : ∀ c ∈ run, c ∈ alphabet)
include known

theorem padding_not_mem_run : padding ∉ run :=
  fun member => padding_not_mem_alphabet (known padding member)

/-- Nothing is wrong in a run of the alphabet with no padding in front. -/
theorem offence_of_lt (rest : Bytes) {i : Nat} (h : i < run.length) :
    offence (run ++ rest) i = none := by
  have here : (run ++ rest)[i]? = some run[i] := by
    rw [List.getElem?_append_left h, List.getElem?_eq_getElem h]
  have member : run[i] ∈ alphabet := known _ (List.getElem_mem h)
  have other : run[i] ≠ padding := fun sign => padding_not_mem_alphabet (sign ▸ member)
  have front : padding ∉ (run ++ rest).take i := by
    rw [List.take_append_of_le_length h.le]
    exact fun inside => padding_not_mem_run known (List.mem_of_mem_take inside)
  simp only [offence, here, if_neg other]
  exact if_pos ⟨member, front⟩

/-- The character behind a run of the alphabet is judged by itself and by what follows it. -/
theorem offence_behind (c : UInt8) (more : Bytes) :
    offence (run ++ c :: more) run.length
      = if c = padding then if 2 ≤ more.length then some .earlyPadding else none
        else if c ∈ alphabet then none else some .character := by
  have here : (run ++ c :: more)[run.length]? = some c := by
    rw [List.getElem?_append_right le_rfl, Nat.sub_self]
    rfl
  have front : padding ∉ (run ++ c :: more).take run.length := by
    rw [List.take_left]
    exact padding_not_mem_run known
  have place : run.length + 2 < (run ++ c :: more).length ↔ 2 ≤ more.length := by
    rw [List.length_append, List.length_cons]
    omega
  simp only [offence, here, place, front, not_false_eq_true, and_true]

end Run

/-- What follows the first run of the alphabet, and what becomes of the text: padding signs end it,
    or they have too much behind them, or something stands there that may not. -/
inductive Tail : Bytes → Except Error Unit → Prop
  | signs {pads : Nat} (few : pads ≤ 2) : Tail (List.replicate pads padding) (.ok ())
  | early {more : Bytes} (much : 2 ≤ more.length) : Tail (padding :: more) (.error .earlyPadding)
  | foreign {c : UInt8} {more : Bytes} (other : c ≠ padding) (unknown : c ∉ alphabet) :
    Tail (c :: more) (.error .character)
  | behind {c : UInt8} (other : c ≠ padding) : Tail [padding, c] (.error .character)

/-- **Every text is a run of the alphabet and one of the four forms.** -/
theorem exists_tail : ∀ s : Bytes, ∃ run rest verdict,
    s = run ++ rest ∧ (∀ c ∈ run, c ∈ alphabet) ∧ Tail rest verdict
  | [] => ⟨[], [], _, rfl, fun _ h => absurd h List.not_mem_nil, .signs (Nat.zero_le 2)⟩
  | c :: rest => by
    have empty : ∀ c ∈ ([] : Bytes), c ∈ alphabet := fun _ h => absurd h List.not_mem_nil
    by_cases member : c ∈ alphabet
    · obtain ⟨run, tail, verdict, rfl, known, form⟩ := exists_tail rest
      exact ⟨c :: run, tail, verdict, rfl, List.forall_mem_cons.2 ⟨member, known⟩, form⟩
    by_cases sign : c = padding
    · subst sign
      match rest with
      | [] => exact ⟨[], List.replicate 1 padding, _, rfl, empty, .signs (by decide)⟩
      | [next] =>
        by_cases second : next = padding
        · subst second
          exact ⟨[], List.replicate 2 padding, _, rfl, empty, .signs le_rfl⟩
        · exact ⟨[], _, _, rfl, empty, .behind second⟩
      | _ :: _ :: more =>
        exact ⟨[], _, _, rfl, empty, .early (Nat.le_add_left 2 more.length)⟩
    · exact ⟨[], _, _, rfl, empty, .foreign sign member⟩

/-- **The first offence decides the error.** -/
theorem Tail.exists_offence {run rest : Bytes} {e : Error} (known : ∀ c ∈ run, c ∈ alphabet)
    (tail : Tail rest (.error e)) :
    ∃ i, offence (run ++ rest) i = some e ∧ ∀ j < i, offence (run ++ rest) j = none := by
  cases tail with
  | early much =>
    refine ⟨run.length, ?_, fun j => offence_of_lt known _⟩
    rw [offence_behind known, if_pos rfl, if_pos much]
  | foreign other unknown =>
    refine ⟨run.length, ?_, fun j => offence_of_lt known _⟩
    rw [offence_behind known, if_neg other, if_neg unknown]
  | @behind c other =>
    -- The sign may stand in the last place but one: the character behind it offends first.
    refine ⟨run.length + 1, ?_, fun j lt => ?_⟩
    · have here : (run ++ [padding, c])[run.length + 1]? = some c := by
        rw [List.getElem?_append_right (Nat.le_add_right _ 1), Nat.add_sub_cancel_left]
        rfl
      have front : padding ∈ (run ++ [padding, c]).take (run.length + 1) := by
        rw [List.take_length_add_append]
        exact List.mem_append_right _ (List.mem_singleton.2 rfl)
      simp only [offence, here, if_neg other]
      exact if_neg fun clean => clean.2 front
    · rcases Nat.lt_succ_iff_lt_or_eq.1 lt with inside | rfl
      · exact offence_of_lt known _ inside
      · rw [offence_behind known, if_pos rfl]
        rfl

/-! ## 3. The reader -/

/-- The characters of a run of the alphabet are the glyphs of their places. -/
theorem map_glyph_idxOf {run : Bytes} (known : ∀ c ∈ run, c ∈ alphabet) :
    (run.map alphabet.idxOf).map glyph = run := by
  rw [List.map_map]
  exact (List.map_congr_left fun c member => glyph_idxOf c (known c member)).trans (List.map_id run)

theorem lt_of_mem_places {run : Bytes} (known : ∀ c ∈ run, c ∈ alphabet) :
    ∀ code ∈ run.map alphabet.idxOf, code < 64 := by
  intro code member
  obtain ⟨c, inside, rfl⟩ := List.mem_map.1 member
  exact idxOf_lt (known c inside)

/-- The form of what follows the run decides the reading there. -/
theorem Tail.codesOnto_eq {rest : Bytes} {verdict : Except Error Unit} (tail : Tail rest verdict)
    (out : Array Nat) : codesOnto out rest = verdict.map fun _ => out.toList := by
  cases tail with
  | @signs pads few =>
    match pads, few with
    | 0, _ => rfl
    | 1, _ => rfl
    | 2, _ => rfl
  | @early more much =>
    match more, much with
    | _ :: _ :: _, _ => rfl
  | @foreign c more other unknown =>
    rw [codesOnto, if_neg other, code?_eq, if_neg unknown]
    rfl
  | @behind c other =>
    rw [codesOnto, if_pos rfl, checkPadding, if_neg other]

/-- **A text is read up to its first offence**: without one, as the places of its characters. -/
theorem Tail.codesOnto_append {run rest : Bytes} {verdict : Except Error Unit}
    (known : ∀ c ∈ run, c ∈ alphabet) (tail : Tail rest verdict) :
    codesOnto #[] (run ++ rest) = verdict.map fun _ => run.map alphabet.idxOf := by
  have read := codesOnto_glyphs (lt_of_mem_places known) #[] rest
  rw [map_glyph_idxOf known, tail.codesOnto_eq] at read
  simpa using read

theorem WellFormed.codesOnto_eq {run s : Bytes} {pads : Nat} (h : WellFormed run pads s) :
    codesOnto #[] s = .ok (run.map alphabet.idxOf) := by
  rw [h.text, (Tail.signs h.few).codesOnto_append h.known]
  rfl

/-! ## 4. The bytes of codes -/

/-- The bytes read before stand in front and change nothing else. -/
theorem bytesOnto_eq : ∀ (known : List Nat) (out : Array UInt8),
    bytesOnto out known = out.toList ++ bytesOnto #[] known
  | [], out => by simp [bytesOnto]
  | [p], out => by simp [bytesOnto]
  | [p, q], out => by simp [bytesOnto]
  | [p, q, r], out => by simp [bytesOnto]
  | p :: q :: r :: s :: rest, out => by
    rw [bytesOnto, bytesOnto, bytesOnto_eq rest, bytesOnto_eq rest (#[] ++ _)]
    simp

/-- **Reading goes group by group.** -/
theorem bytesOnto_cons (p q r s : Nat) (rest : List Nat) :
    bytesOnto #[] (p :: q :: r :: s :: rest) = bytesOfFour p q r s ++ bytesOnto #[] rest := by
  rw [bytesOnto, bytesOnto_eq]
  rfl

theorem length_bytesOnto : ∀ known : List Nat, (bytesOnto #[] known).length = 6 * known.length / 8
  | [] => rfl
  | [p] => by simp [bytesOnto]
  | [p, q] => by simp [bytesOnto]
  | [p, q, r] => by simp [bytesOnto]
  | p :: q :: r :: s :: rest => by
    rw [bytesOnto_cons, List.length_append, length_bytesOnto rest]
    show 3 + 6 * rest.length / 8 = 6 * (rest.length + 4) / 8
    omega

/-- A byte put together of the low bits of one number and a smaller one has the bits of both. -/
theorem ofNat_byte (m n d : Nat) (whole : m + n = 8) (parts : 2 ^ n = d) (x : Nat) {y : Nat}
    (small : y < d) :
    Bits.ofNat 8 (x % 2 ^ m * d + y).toUInt8.toNat = Bits.ofNat m x ++ Bits.ofNat n y := by
  subst parts
  have join := Bits.ofNat_join m x small
  rw [whole] at join
  rw [← join]
  exact Bits.ofNat_mod 8 _

theorem first_byte {p q : Nat} (hp : p < 64) (hq : q < 64) :
    Bits.ofNat 8 (p * 4 + q / 16).toUInt8.toNat = Bits.ofNat 6 p ++ Bits.ofNat 2 (q / 16) := by
  have low : p % 2 ^ 6 = p := Nat.mod_eq_of_lt hp
  have byte := ofNat_byte 6 2 4 rfl rfl p (y := q / 16) (by omega)
  rwa [low] at byte

theorem second_byte (q : Nat) {r : Nat} (hr : r < 64) :
    Bits.ofNat 8 (q % 16 * 16 + r / 4).toUInt8.toNat = Bits.ofNat 4 q ++ Bits.ofNat 4 (r / 4) :=
  ofNat_byte 4 4 16 rfl rfl q (by omega)

theorem third_byte (r : Nat) {s : Nat} (hs : s < 64) :
    Bits.ofNat 8 (r % 4 * 64 + s).toUInt8.toNat = Bits.ofNat 2 r ++ Bits.ofNat 6 s :=
  ofNat_byte 2 6 64 rfl rfl r hs

/-- **The bytes of codes have their leading bits.** -/
theorem ofBytes_bytesOnto : ∀ {known : List Nat}, (∀ code ∈ known, code < 64) →
    Bits.ofBytes (bytesOnto #[] known) <+: known.flatMap (Bits.ofNat 6)
  | [], _ => List.prefix_rfl
  | [p], _ => List.nil_prefix
  | [p, q], small => by
    simp only [List.forall_mem_cons] at small
    obtain ⟨hp, hq, -⟩ := small
    refine ⟨Bits.ofNat 4 q, ?_⟩
    simp only [bytesOnto, List.nil_append, Bits.ofBytes_cons, Bits.ofBytes_nil, List.append_nil,
      List.flatMap_cons, List.flatMap_nil]
    rw [first_byte hp hq, List.append_assoc]
    exact congrArg _ (Bits.ofNat_add 2 4 q).symm
  | [p, q, r], small => by
    simp only [List.forall_mem_cons] at small
    obtain ⟨hp, hq, hr, -⟩ := small
    refine ⟨Bits.ofNat 2 r, ?_⟩
    simp only [bytesOnto, List.nil_append, Bits.ofBytes_cons, Bits.ofBytes_nil, List.append_nil,
      List.flatMap_cons, List.flatMap_nil]
    rw [first_byte hp hq, second_byte q hr, Bits.ofNat_add 2 4 q, Bits.ofNat_add 4 2 r]
    simp only [List.append_assoc]
    rfl
  | p :: q :: r :: s :: rest, small => by
    simp only [List.forall_mem_cons] at small
    obtain ⟨hp, hq, hr, hs, others⟩ := small
    have group : Bits.ofBytes (bytesOfFour p q r s) = [p, q, r, s].flatMap (Bits.ofNat 6) := by
      simp only [bytesOfFour, Bits.ofBytes_cons, Bits.ofBytes_nil, List.append_nil,
        List.flatMap_cons, List.flatMap_nil]
      rw [first_byte hp hq, second_byte q hr, third_byte r hs, Bits.ofNat_add 2 4 q,
        Bits.ofNat_add 4 2 r]
      simp only [List.append_assoc]
      rfl
    have split : p :: q :: r :: s :: rest = [p, q, r, s] ++ rest := rfl
    rw [bytesOnto_cons, Bits.ofBytes_append, group, split, List.flatMap_append]
    exact (List.prefix_append_right_inj _).2 (ofBytes_bytesOnto others)

/-! ## 5. The decoder -/

section Decode

variable {text : Bytes}

theorem decode_of_whole (whole : (trim text).length % 4 = 0) :
    decode text = (codesOnto #[] (trim text)).map (bytesOnto #[]) :=
  if_neg (not_not.2 whole)

/-- **What follows the grammar is read**, as the bytes of its codes. -/
theorem WellFormed.decode_eq {run : Bytes} {pads : Nat} (h : WellFormed run pads (trim text))
    (whole : (trim text).length % 4 = 0) :
    decode text = .ok (bytesOnto #[] (run.map alphabet.idxOf)) := by
  rw [decode_of_whole whole, h.codesOnto_eq]
  rfl

/-- **What does not follow it has a first offence**, which is the error, in whole groups. -/
theorem wellFormed_or_offence (s : Bytes) :
    (∃ run pads, WellFormed run pads s) ∨
      ∃ e, codesOnto #[] s = .error e ∧ ∃ i, offence s i = some e ∧ ∀ j < i, offence s j = none := by
  obtain ⟨run, rest, verdict, rfl, known, tail⟩ := exists_tail s
  match verdict, tail with
  | .ok (), .signs few => exact .inl ⟨run, _, rfl, few, known⟩
  | .error e, tail => exact .inr ⟨e, tail.codesOnto_append known, tail.exists_offence known⟩

/-- **Exactly the texts of the grammar are read.** -/
theorem decode_ok_iff : (∃ bytes, decode text = .ok bytes) ↔
    (trim text).length % 4 = 0 ∧ ∃ run pads, WellFormed run pads (trim text) := by
  constructor
  · rintro ⟨bytes, done⟩
    have whole : (trim text).length % 4 = 0 := by
      by_contra ragged
      rw [decode_eq_error_length ragged] at done
      cases done
    refine ⟨whole, (wellFormed_or_offence (trim text)).resolve_right ?_⟩
    rintro ⟨e, refused, -⟩
    rw [decode_of_whole whole, refused] at done
    cases done
  · rintro ⟨whole, run, pads, form⟩
    exact ⟨_, form.decode_eq whole⟩

/-- **The bytes that are read**: three for every four characters but for the padding signs, with the
    leading bits of what the characters spell. -/
theorem decode_bits {bytes : Bytes} (done : decode text = .ok bytes) :
    ∃ run pads, WellFormed run pads (trim text) ∧
      bytes.length = 3 * (trim text).length / 4 - pads ∧ Bits.ofBytes bytes <+: spelled run := by
  obtain ⟨whole, run, pads, form⟩ := decode_ok_iff.1 ⟨bytes, done⟩
  obtain rfl := Except.ok.inj ((form.decode_eq whole).symm.trans done)
  refine ⟨run, pads, form, ?_, ?_⟩
  · have few := form.few
    have size := form.length_eq
    rw [length_bytesOnto, List.length_map]
    omega
  · have leading := ofBytes_bytesOnto (lt_of_mem_places form.known)
    rwa [← spelled_glyphs (lt_of_mem_places form.known), map_glyph_idxOf form.known] at leading

/-- **Why a text is refused**: for its length, else for its first offence. -/
theorem offence_of_decode {e : Error} (refused : decode text = .error e) :
    (trim text).length % 4 ≠ 0 ∧ e = .length ∨
      (trim text).length % 4 = 0 ∧
        ∃ i, offence (trim text) i = some e ∧ ∀ j < i, offence (trim text) j = none := by
  by_cases whole : (trim text).length % 4 = 0
  · refine .inr ⟨whole, ?_⟩
    rcases wellFormed_or_offence (trim text) with ⟨run, pads, form⟩ | ⟨e', stopped, first⟩
    · rw [form.decode_eq whole] at refused
      cases refused
    · rw [decode_of_whole whole, stopped] at refused
      obtain rfl := Except.error.inj refused
      exact first
  · rw [decode_eq_error_length whole] at refused
    exact .inl ⟨whole, (Except.error.inj refused).symm⟩

end Decode

end Base64

end PackedInts
