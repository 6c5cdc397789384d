import Mathlib
import PackedInts.Proofs.Text.MaximalRuns
import PackedInts.Proofs.Text.ValueList

/-!
# The tokens of a list of values

A text is read token by token, and a token digit by digit. What a token comes to can be told from the
numbers that its digits spell: from that of all of them, or if something else stands among them from
that of the digits in front of it. The first token from the left that is no value decides the error.

* `readDigits_eq`, `readToken_eq` -- what the digits of a token come to;
* `readDigitsWatched`, `readDigitsWatched_eq` -- the same reading, with every step watched for a number
  that leaves the word: there is none;
* `scan`, `scan_eq` -- a text in one pass, byte by byte, with the token that is still open;
* `parse_eq_ok_iff`, `parse_eq_error_iff` -- when a text is read, and which token decides when not;
* **`parse_tokens`** -- which texts are read, as which values, and why the rest is not.
-/

namespace PackedInts

/-! ## 1. Numbers that digits spell -/

namespace Numeral

/-- The number that digits spell behind a number that was read before. -/
def valueOnto (n : Nat) (digits : Bytes) : Nat :=
  digits.foldl (fun n b => n * 10 + digitValue b) n

@[simp] theorem valueOnto_nil (n : Nat) : valueOnto n [] = n := rfl

@[simp] theorem valueOnto_cons (n : Nat) (b : UInt8) (digits : Bytes) :
    valueOnto n (b :: digits) = valueOnto (n * 10 + digitValue b) digits :=
  List.foldl_cons ..

/-- More digits make no number smaller. -/
theorem le_valueOnto (n : Nat) (digits : Bytes) : n ≤ valueOnto n digits := by
  induction digits generalizing n with
  | nil => exact Nat.le_refl n
  | cons b digits ih =>
    rw [valueOnto_cons]
    have longer := ih (n * 10 + digitValue b)
    omega

end Numeral

namespace ValueList

/-! ## 2. The digits of a token -/

theorem maxValue_lt_iff (n : UInt64) : maxValue < n ↔ 2 ^ 32 - 1 < n.toNat := by
  rw [UInt64.lt_iff_toNat_lt]
  rfl

/-- **One more digit does not leave the word** behind a number of at most 32 bits. -/
theorem toNat_withDigit {n : UInt64} {b : UInt8} (small : n.toNat ≤ 2 ^ 32 - 1)
    (digit : isDigit b = true) :
    (withDigit n b).toNat = n.toNat * 10 + Numeral.digitValue b := by
  obtain ⟨above, below⟩ := (Numeral.isDigit_iff b).1 digit
  have zero : '0'.toUInt8.toNat = 48 := by decide
  have single : (b - '0'.toUInt8).toNat = b.toNat - 48 := by
    rw [UInt8.toNat_sub_of_le _ _ (UInt8.le_iff_toNat_le.2 (zero ▸ above)), zero]
  have ten : (10 : UInt64).toNat = 10 := rfl
  rw [withDigit, UInt64.toNat_add, UInt64.toNat_mul, UInt8.toNat_toUInt64, single, ten,
    Numeral.digitValue_eq]
  omega

/-- **What digits come to behind a number**: too large if those in front of anything else spell too
    large a number, else a value if there is nothing else. -/
theorem readDigits_eq (token : Bytes) (digits : Bytes) {n : UInt64} (small : n.toNat ≤ 2 ^ 32 - 1) :
    readDigits token n digits =
      if 2 ^ 32 - 1 < Numeral.valueOnto n.toNat (digits.takeWhile isDigit) then
        .error (.tooLarge token)
      else if ∀ b ∈ digits, isDigit b = true then .ok (Numeral.valueOnto n.toNat digits).toUInt32
      else .error (.notNumeral token) := by
  -- The number read so far has at most 32 bits: this carries the induction, and is why the step
  -- that leaves them is still inside the word.
  induction digits generalizing n with
  | nil =>
    rw [List.takeWhile_nil, Numeral.valueOnto_nil, if_neg (Nat.not_lt.2 small),
      if_pos fun _ member => absurd member List.not_mem_nil, readDigits]
    exact congrArg Except.ok (UInt32.toNat_inj.1 (UInt64.toNat_toUInt32 n))
  | cons b digits ih =>
    by_cases digit : isDigit b = true
    · have step := toNat_withDigit small digit
      rw [readDigits, if_pos digit, List.takeWhile_cons_of_pos digit, Numeral.valueOnto_cons,
        Numeral.valueOnto_cons, ← step]
      by_cases large : maxValue < withDigit n b
      · have beyond := Numeral.le_valueOnto (withDigit n b).toNat (digits.takeWhile isDigit)
        have left := (maxValue_lt_iff _).1 large
        rw [if_pos large, if_pos (Nat.lt_of_lt_of_le left beyond)]
      · have within := Nat.not_lt.1 (mt (maxValue_lt_iff _).2 large)
        rw [if_neg large, ih within]
        simp only [List.forall_mem_cons, digit, true_and]
    · have stop : (b :: digits).takeWhile isDigit = [] := by
        rw [List.takeWhile_cons_of_neg digit]
      have other : ¬ ∀ c ∈ b :: digits, isDigit c = true := fun all =>
        digit (all b (List.mem_cons_self ..))
      rw [readDigits, if_neg digit, stop, Numeral.valueOnto_nil, if_neg (Nat.not_lt.2 small),
        if_neg other]

/-- The digits of a token, read with every step watched: nothing if one more digit leaves the word. -/
def readDigitsWatched (token : Bytes) (n : UInt64) : Bytes → Option (Except Error UInt32)
  | [] => some (.ok n.toUInt32)
  | b :: bs =>
    if isDigit b then
      if UInt64.size ≤ n.toNat * 10 + Numeral.digitValue b then none
      else if maxValue < withDigit n b then some (.error (.tooLarge token))
      else readDigitsWatched token (withDigit n b) bs
    else some (.error (.notNumeral token))

/-- **No step leaves the word**, however many digits there are. -/
theorem readDigitsWatched_eq (token : Bytes) (digits : Bytes) {n : UInt64}
    (small : n.toNat ≤ 2 ^ 32 - 1) :
    readDigitsWatched token n digits = some (readDigits token n digits) := by
  induction digits generalizing n with
  | nil => rfl
  | cons b digits ih =>
    rw [readDigitsWatched, readDigits]
    by_cases digit : isDigit b = true
    · have inside : ¬ UInt64.size ≤ n.toNat * 10 + Numeral.digitValue b := by
        rw [← toNat_withDigit small digit]
        exact Nat.not_le.2 (withDigit n b).toNat_lt
      rw [if_pos digit, if_pos digit, if_neg inside]
      by_cases large : maxValue < withDigit n b
      · rw [if_pos large, if_pos large]
      · have within := Nat.not_lt.1 (mt (maxValue_lt_iff _).2 large)
        rw [if_neg large, if_neg large, ih within]
    · rw [if_neg digit, if_neg digit]

/-! ## 3. Tokens -/

section Token

variable {token rest : Bytes}

/-- Digits and nothing else, which spell a number of at most 32 bits. -/
def IsValue (token : Bytes) : Prop :=
  (∀ b ∈ token, isDigit b = true) ∧ Numeral.value token ≤ 2 ^ 32 - 1

/-- What is wrong with a token that is no value. -/
def fault (token : Bytes) : Error :=
  if 2 ^ 32 - 1 < Numeral.value (token.takeWhile isDigit) then .tooLarge token else .notNumeral token

/-- **What a token comes to.** -/
theorem readToken_eq (token : Bytes) :
    readToken token =
      if 2 ^ 32 - 1 < Numeral.value (token.takeWhile isDigit) then .error (.tooLarge token)
      else if ∀ b ∈ token, isDigit b = true then .ok (Numeral.value token).toUInt32
      else .error (.notNumeral token) :=
  readDigits_eq token token (Nat.zero_le _)

theorem readToken_of_isValue (h : IsValue token) :
    readToken token = .ok (Numeral.value token).toUInt32 := by
  have whole : token.takeWhile isDigit = token := List.takeWhile_eq_self_iff.2 h.1
  rw [readToken_eq, whole, if_neg (Nat.not_lt.2 h.2), if_pos h.1]

theorem readToken_of_not_isValue (h : ¬ IsValue token) : readToken token = .error (fault token) := by
  rw [readToken_eq, fault]
  by_cases large : 2 ^ 32 - 1 < Numeral.value (token.takeWhile isDigit)
  · rw [if_pos large, if_pos large]
  · have other : ¬ ∀ b ∈ token, isDigit b = true := by
      intro all
      rw [List.takeWhile_eq_self_iff.2 all] at large
      exact h ⟨all, Nat.not_lt.1 large⟩
    rw [if_neg large, if_neg other, if_neg large]

/-- **A token is read exactly if it is a value**, as its number. -/
theorem readToken_eq_ok_iff {v : UInt32} :
    readToken token = .ok v ↔ IsValue token ∧ v.toNat = Numeral.value token := by
  by_cases value : IsValue token
  · have number : (Numeral.value token).toUInt32.toNat = Numeral.value token :=
      Nat.mod_eq_of_lt (Nat.lt_of_le_of_lt value.2 (by decide))
    rw [readToken_of_isValue value, Except.ok.injEq, ← UInt32.toNat_inj, number]
    exact ⟨fun same => ⟨value, same.symm⟩, fun h => h.2.symm⟩
  · rw [readToken_of_not_isValue value]
    exact ⟨nofun, fun h => absurd h.1 value⟩

/-- **It is refused exactly if it is none**, for what is wrong with it. -/
theorem readToken_eq_error_iff {e : Error} :
    readToken token = .error e ↔ ¬ IsValue token ∧ e = fault token := by
  by_cases value : IsValue token
  · rw [readToken_of_isValue value]
    exact ⟨nofun, fun h => absurd value h.1⟩
  · rw [readToken_of_not_isValue value, Except.error.injEq]
    exact ⟨fun same => ⟨value, same.symm⟩, fun h => h.2.symm⟩

/-- **A token in front is read first**, if a separator or nothing follows it. -/
theorem parse_append_token (nonempty : token ≠ []) (solid : ∀ b ∈ token, separatesValues b = false)
    (ended : ∀ b, rest.head? = some b → separatesValues b = true) :
    parse (token ++ rest) = (readToken token).bind fun v => (parse rest).map (v :: ·) := by
  rw [parse, words_append_run nonempty solid ended, List.mapM_cons]
  cases readToken token <;> rfl

end Token

/-! ## 4. Texts -/

/-- Comma, space, tab, line feed, vertical tab, form feed and carriage return. -/
def valueSeparators : Bytes :=
  [44, 32, 9, 10, 11, 12, 13]

theorem separatesValues_iff (b : UInt8) : separatesValues b = true ↔ b ∈ valueSeparators :=
  forall_byte (P := fun b => separatesValues b = true ↔ b ∈ valueSeparators) (by decide +kernel) b

/-- The values of a text in one pass, behind those read before and the token that is still open. -/
def scan (values : List UInt32) (pending : Bytes) : Bytes → Except Error (List UInt32)
  | [] => if pending = [] then .ok values else (readToken pending).map fun v => values ++ [v]
  | b :: text =>
    if separatesValues b = false then scan values (pending ++ [b]) text
    else if pending = [] then scan values [] text
    else
      match readToken pending with
      | .ok v => scan (values ++ [v]) [] text
      | .error e => .error e

/-- **One pass reads what the tokens are**: an open token goes on with the text that is left. -/
theorem scan_eq (values : List UInt32) {pending : Bytes}
    (solid : ∀ b ∈ pending, separatesValues b = false) (text : Bytes) :
    scan values pending text = (parse (pending ++ text)).map (values ++ ·) := by
  -- On the text that is left, for every open token: a separator or the end closes the token, and any
  -- other byte makes it longer.
  induction text generalizing values pending with
  | nil =>
    by_cases closed : pending = []
    · rw [scan, if_pos closed, closed, List.append_nil, parse_nil]
      exact congrArg Except.ok (List.append_nil values).symm
    · have ended : ∀ b, ([] : Bytes).head? = some b → separatesValues b = true := by
        intro b first
        cases first
      rw [scan, if_neg closed, parse_append_token closed solid ended, parse_nil]
      cases readToken pending <;> rfl
  | cons b text ih =>
    by_cases inside : separatesValues b = false
    · have longer : ∀ c ∈ pending ++ [b], separatesValues c = false := by
        intro c member
        rcases List.mem_append.1 member with before | here
        · exact solid c before
        · rw [List.mem_singleton.1 here]
          exact inside
      rw [scan, if_pos inside, ih values longer, List.append_assoc, List.singleton_append]
    · have separator : separatesValues b = true := Bool.eq_true_of_not_eq_false inside
      have nothing : ∀ c ∈ ([] : Bytes), separatesValues c = false :=
        fun _ member => absurd member List.not_mem_nil
      rw [scan, if_neg inside]
      by_cases closed : pending = []
      · rw [if_pos closed, ih values nothing, closed, List.nil_append, List.nil_append,
          parse_separator separator]
      · have ended : ∀ c, (b :: text).head? = some c → separatesValues c = true := by
          rintro c ⟨⟩
          exact separator
        rw [if_neg closed, parse_append_token closed solid ended, parse_separator separator]
        cases readToken pending with
        | error e => rfl
        | ok v =>
          show scan (values ++ [v]) [] text = ((parse text).map (v :: ·)).map (values ++ ·)
          rw [ih (values ++ [v]) nothing, List.nil_append]
          cases parse text with
          | error e => rfl
          | ok vs => exact congrArg Except.ok (List.append_assoc values [v] vs)

section Text

variable {text : Bytes}

theorem forall₂_readToken_iff {tokens : List Bytes} {vs : List UInt32} :
    List.Forall₂ (fun token v => readToken token = .ok v) tokens vs ↔
      (∀ token ∈ tokens, IsValue token) ∧ vs.map UInt32.toNat = tokens.map Numeral.value := by
  induction tokens generalizing vs with
  | nil => simp
  | cons token tokens ih =>
    cases vs with
    | nil => simp
    | cons v vs =>
      rw [List.forall₂_cons, readToken_eq_ok_iff, ih, List.forall_mem_cons, List.map_cons,
        List.map_cons, List.cons.injEq]
      tauto

/-- **A text is read exactly if all its tokens are values**, as their numbers. -/
theorem parse_eq_ok_iff {vs : List UInt32} : parse text = .ok vs ↔
    (∀ token ∈ words separatesValues text, IsValue token) ∧
      vs.map UInt32.toNat = (words separatesValues text).map Numeral.value := by
  rw [parse, mapM_eq_ok_iff, forall₂_readToken_iff]

/-- Values are at hand for tokens that are values. -/
theorem exists_parse_iff : (∃ vs, parse text = .ok vs) ↔
    ∀ token ∈ words separatesValues text, IsValue token := by
  constructor
  · rintro ⟨vs, read⟩
    exact (parse_eq_ok_iff.1 read).1
  · intro all
    refine ⟨(words separatesValues text).map fun token => (Numeral.value token).toUInt32,
      parse_eq_ok_iff.2 ⟨all, ?_⟩⟩
    rw [List.map_map]
    refine List.map_congr_left fun token member => ?_
    exact Nat.mod_eq_of_lt (Nat.lt_of_le_of_lt (all token member).2 (by decide))

/-- **Otherwise the first token that is none decides the error.** -/
theorem parse_eq_error_iff {e : Error} : parse text = .error e ↔
    ∃ front token back, words separatesValues text = front ++ token :: back ∧
      (∀ other ∈ front, IsValue other) ∧ ¬ IsValue token ∧ e = fault token := by
  have read (token : Bytes) : (∃ v, readToken token = .ok v) ↔ IsValue token := by
    constructor
    · rintro ⟨v, done⟩
      exact (readToken_eq_ok_iff.1 done).1
    · intro value
      exact ⟨_, readToken_of_isValue value⟩
  rw [parse, mapM_eq_error_iff]
  simp only [read, readToken_eq_error_iff]

/-- The error of a token, and its message, which shows the token up to its first zero byte. -/
theorem fault_cases (token : Bytes) :
    2 ^ 32 - 1 < Numeral.value (token.takeWhile isDigit) ∧ fault token = .tooLarge token ∧
        (fault token).message = ascii "Value does not fit in 32 bits: " ++ beforeZero token ∨
      Numeral.value (token.takeWhile isDigit) ≤ 2 ^ 32 - 1 ∧ fault token = .notNumeral token ∧
        (fault token).message = ascii "Invalid value token: " ++ beforeZero token := by
  unfold fault
  by_cases large : 2 ^ 32 - 1 < Numeral.value (token.takeWhile isDigit)
  · rw [if_pos large]
    exact .inl ⟨large, rfl, rfl⟩
  · rw [if_neg large]
    exact .inr ⟨Nat.not_lt.1 large, rfl, rfl⟩

/-- **Which texts are read.** The tokens of a text are its maximal runs of bytes that are no
    separators, and one pass over the text reads them. A text is read exactly if every token is made
    of digits that spell a number of at most 32 bits, as these numbers in order. Otherwise the first
    token that is not so decides the error: it is too large if the digits in front of anything else
    spell a larger number, and else no numeral. The error carries the token, and its message shows the
    token up to the first zero byte. No token is so long that its number leaves the word it is read
    into. -/
theorem parse_tokens (text : Bytes) : ∃ tokens,
    (∀ runs, MaximalRuns valueSeparators text runs ↔ runs = tokens) ∧
    scan [] [] text = parse text ∧
    ((∃ vs, parse text = .ok vs) ↔ ∀ token ∈ tokens, IsValue token) ∧
    (∀ vs, parse text = .ok vs → vs.map UInt32.toNat = tokens.map Numeral.value) ∧
    (∀ e, parse text = .error e → ∃ front token back, tokens = front ++ token :: back ∧
      (∀ other ∈ front, IsValue other) ∧ ¬ IsValue token ∧
      (2 ^ 32 - 1 < Numeral.value (token.takeWhile isDigit) ∧ e = .tooLarge token ∧
          e.message = ascii "Value does not fit in 32 bits: " ++ beforeZero token ∨
        Numeral.value (token.takeWhile isDigit) ≤ 2 ^ 32 - 1 ∧ e = .notNumeral token ∧
          e.message = ascii "Invalid value token: " ++ beforeZero token) ∧
      (0 ∉ token → token <:+ e.message)) ∧
    ∀ token, readDigitsWatched token 0 token = some (readToken token) := by
  refine ⟨words separatesValues text, fun runs => maximalRuns_iff separatesValues_iff, ?_,
    exists_parse_iff, fun vs read => (parse_eq_ok_iff.1 read).2, fun e refused => ?_,
    fun token => readDigitsWatched_eq token token (Nat.zero_le _)⟩
  · rw [scan_eq [] (fun _ member => absurd member List.not_mem_nil)]
    rw [List.nil_append]
    cases parse text <;> rfl
  · obtain ⟨front, token, back, split, before, none, rfl⟩ := parse_eq_error_iff.1 refused
    refine ⟨front, token, back, split, before, none, fault_cases token, fun shown => ?_⟩
    have whole := beforeZero_eq_self shown
    rcases fault_cases token with ⟨-, -, message⟩ | ⟨-, -, message⟩
    · rw [message, whole]
      exact List.suffix_append _ _
    · rw [message, whole]
      exact List.suffix_append _ _

end Text

/-- A text with leading zeros and the largest value, and one with a larger number in front of another
    character. -/
theorem parse_tokens_two_texts :
    (∃ tokens, MaximalRuns valueSeparators (ascii "007,\t4294967295\n") tokens ∧
      parse (ascii "007,\t4294967295\n") = .ok [7, 4294967295] ∧
      tokens.map Numeral.value = [7, 4294967295]) ∧
    ∃ front token back,
      MaximalRuns valueSeparators (ascii "1 4294967296x 2") (front ++ token :: back) ∧
      parse (ascii "1 4294967296x 2") = .error (.tooLarge token) ∧ ¬ IsValue token ∧
      2 ^ 32 - 1 < Numeral.value (token.takeWhile isDigit) := by
  have read : parse (ascii "007,\t4294967295\n") = .ok [7, 4294967295] := by decide +kernel
  have refused : parse (ascii "1 4294967296x 2") = .error (.tooLarge (ascii "4294967296x")) := by
    decide +kernel
  constructor
  · obtain ⟨tokens, runs, -, -, values, -⟩ := parse_tokens (ascii "007,\t4294967295\n")
    exact ⟨tokens, (runs tokens).2 rfl, read, (values _ read).symm⟩
  · obtain ⟨_, runs, -, -, -, errors, -⟩ := parse_tokens (ascii "1 4294967296x 2")
    obtain ⟨front, token, back, split, -, none, ⟨large, same, -⟩ | ⟨-, other, -⟩, -⟩ :=
      errors _ refused
    · exact ⟨front, token, back, (runs _).2 split.symm, refused.trans (congrArg Except.error same),
        none, large⟩
    · cases other

/-- **The message of a token with a zero byte does not carry the token**, but what stands in front of
    that byte. -/
theorem message_of_zero_byte :
    (∀ runs, MaximalRuns valueSeparators [49, 0, 50] runs ↔ runs = [[49, 0, 50]]) ∧
      parse [49, 0, 50] = .error (.notNumeral [49, 0, 50]) ∧
      (Error.notNumeral [49, 0, 50]).message = ascii "Invalid value token: 1" ∧
      ¬ [49, 0, 50] <:+: (Error.notNumeral [49, 0, 50]).message := by
  refine ⟨fun runs => ?_, by decide +kernel, by decide +kernel, by decide +kernel⟩
  have one : words separatesValues [49, 0, 50] = [[49, 0, 50]] := by decide +kernel
  rw [← one]
  exact maximalRuns_iff separatesValues_iff

end ValueList

end PackedInts
