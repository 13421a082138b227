import OrderedLog.Json.Number
import OrderedLog.Proofs.Text.Decimal

/-
  This file says in which ways a number may be written in JSON
  text, and proves that it is read from each of them. What
  comes after the number must not look like more of it.

  Key definitions include:
    * `Exponent.Spelled`
    * `Number.Spelled`
    * `Number.Ends`

  Key lemmas include:
    * `Digits.scan?_append`
    * `Number.scanWhole?_append`
    * `Number.scanExponent?_append`
    * `Number.spelled_chars`
    * `Number.Spelled.exists_cons`

  Key theorems include:
    * `Number.scan?_append`
-/

namespace OrderedLog.Json

------------------------------------------------------------
-- Digits
------------------------------------------------------------

theorem digit?_digitChar (d : Fin 10) : digit? (digitChar d) = some d := by
  revert d
  decide

theorem isDigit_digitChar (d : Fin 10) : (digitChar d).isDigit = true := by
  revert d
  decide

theorem digit?_eq_none
    {c : Char}
    (h : c.isDigit = false) : digit? c = none := by
  unfold digit?
  rw [if_neg]
  intro hBoth
  have hValues : '0'.val ≤ c.val ∧ c.val ≤ '9'.val := hBoth
  have hDigit : c.isDigit = true := by
    simpa [Char.isDigit] using hValues
  rw [h] at hDigit
  cases hDigit

namespace Digits

/- The digits at the start of a text end where the text has others. -/
theorem span_append
    (digits : List (Fin 10))
    {rest : List Char}
    (h : Decimal.Stops rest) :
    span (digits.map digitChar ++ rest) = (digits, rest) := by
  induction digits with
  | nil =>
    cases rest with
    | nil => rfl
    | cons c rest =>
      rw [List.map_nil, List.nil_append, span, digit?_eq_none (h c rfl)]
  | cons d digits ih =>
    rw [List.map_cons, List.cons_append, span, digit?_digitChar]
    simp only [ih]

theorem scan?_append
    (d : Digits)
    {rest : List Char}
    (h : Decimal.Stops rest) :
    scan? (d.chars ++ rest) = some (d, rest) := by
  have hSpan := span_append (d.first :: d.more) h
  rw [List.map_cons] at hSpan
  unfold scan? chars
  rw [hSpan]

theorem valueFrom_append
    (start : Nat)
    (digits : List (Fin 10))
    (last : Fin 10) :
    valueFrom start (digits ++ [last]) =
      10 * valueFrom start digits + last.val := by
  induction digits generalizing start with
  | nil => rfl
  | cons d digits ih =>
    rw [List.cons_append, valueFrom, valueFrom, ih]

/- A number in decimal consists of digits, and zero alone starts with one. -/
theorem exists_toDigits_eq_chars (n : Nat) :
    ∃ d : Digits,
      Nat.toDigits 10 n = d.chars ∧ d.value = n ∧ (n ≠ 0 → d.first ≠ 0) := by
  induction n using Nat.strongRecOn with
  | ind n ih =>
    by_cases hSmall : n < 10
    · refine ⟨⟨⟨n, hSmall⟩, []⟩, Nat.toDigits_of_lt_base hSmall, ?_, ?_⟩
      · exact Nat.zero_add n
      · intro hNonzero hZero
        exact hNonzero (congrArg Fin.val hZero)
    · have hAbove : 10 ≤ n := Nat.le_of_not_lt hSmall
      rcases ih (n / 10) (by omega) with ⟨d, hChars, hValue, hFirst⟩
      let last : Fin 10 := ⟨n % 10, Nat.mod_lt n (by decide)⟩
      refine ⟨⟨d.first, d.more ++ [last]⟩, ?_, ?_, fun _ => ?_⟩
      · rw [Nat.toDigits_of_base_le (by decide) hAbove, hChars]
        simp [chars, digitChar, last]
      · have hMore : value ⟨d.first, d.more ++ [last]⟩ =
            10 * d.value + last.val :=
          valueFrom_append 0 (d.first :: d.more) last
        rw [hMore, hValue]
        exact Nat.div_add_mod n 10
      · exact hFirst (by omega)

end Digits

------------------------------------------------------------
-- Spellings
------------------------------------------------------------

/- The ways to write an exponent, or to leave it out. -/
inductive Exponent.Spelled : Option Exponent → List Char → Prop where
  | missing : Spelled none []
  | unsigned
      {letter : Char}
      (either : letter = 'e' ∨ letter = 'E')
      (digits : Digits) :
      Spelled (some ⟨false, digits⟩) (letter :: digits.chars)
  | plus
      {letter : Char}
      (either : letter = 'e' ∨ letter = 'E')
      (digits : Digits) :
      Spelled (some ⟨false, digits⟩) (letter :: '+' :: digits.chars)
  | minus
      {letter : Char}
      (either : letter = 'e' ∨ letter = 'E')
      (digits : Digits) :
      Spelled (some ⟨true, digits⟩) (letter :: '-' :: digits.chars)

namespace Number

/-
  The ways to write a number. Only the exponent leaves a choice:
  the case of its letter, and a plus sign.
-/
def Spelled
    (n : Number)
    (text : List Char) : Prop :=
  ∃ power,
    Exponent.Spelled n.exponent power ∧
      text = (if n.negative then ['-'] else [])
        ++ (Nat.toDigits 10 n.whole
          ++ (fractionChars n.fraction ++ power))

/- A text that does not go on with more of a number. -/
def Ends (rest : List Char) : Prop :=
  ∀ c ∈ rest.head?, c.isDigit = false ∧ c ≠ '.' ∧ c ≠ 'e' ∧ c ≠ 'E'

theorem Ends.stops
    {rest : List Char}
    (h : Ends rest) : Decimal.Stops rest :=
  fun c hHead => (h c hHead).1

/- A number is spelled the way it is written. -/
theorem spelled_chars (n : Number) : n.Spelled n.chars := by
  refine ⟨exponentChars n.exponent, ?_, ?_⟩
  · cases n.exponent with
    | none => exact Exponent.Spelled.missing
    | some e =>
      rcases e with ⟨negative, digits⟩
      cases negative with
      | false => exact Exponent.Spelled.unsigned (Or.inl rfl) digits
      | true => exact Exponent.Spelled.minus (Or.inl rfl) digits
  · unfold chars
    rw [List.append_assoc, List.append_assoc]

/- However a number is written, it starts with a sign or a digit. -/
theorem Spelled.exists_cons
    {n : Number}
    {text : List Char}
    (h : n.Spelled text) :
    ∃ c more, text = c :: more ∧ (c = '-' ∨ c.isDigit = true) := by
  rcases h with ⟨power, _, hText⟩
  rcases Decimal.exists_toDigits_eq_cons n.whole with
    ⟨c, more, hDigits, hDigit⟩
  rw [hText, hDigits]
  cases n.negative with
  | true => exact ⟨_, _, rfl, Or.inl rfl⟩
  | false => exact ⟨_, _, rfl, Or.inr hDigit⟩

------------------------------------------------------------
-- Reading
------------------------------------------------------------

/- No digit is taken for a minus sign. -/
theorem scanSign_append
    (negative : Bool)
    (n : Nat)
    (rest : List Char) :
    scanSign ((if negative then ['-'] else [])
        ++ (Nat.toDigits 10 n ++ rest)) =
      (negative, Nat.toDigits 10 n ++ rest) := by
  rcases Decimal.exists_toDigits_eq_cons n with ⟨c, more, hDigits, hDigit⟩
  cases negative with
  | true => rfl
  | false =>
    rw [if_neg (by decide), List.nil_append, hDigits]
    unfold scanSign
    split
    · next hSame =>
      rw [(List.cons.inj hSame).1] at hDigit
      exact absurd hDigit (by decide)
    · rfl

theorem scanWhole?_append
    (n : Nat)
    {rest : List Char}
    (h : Decimal.Stops rest) :
    scanWhole? (Nat.toDigits 10 n ++ rest) = some (n, rest) := by
  rcases Digits.exists_toDigits_eq_chars n with
    ⟨d, hChars, hValue, hFirst⟩
  by_cases hZero : n = 0
  · rw [hZero, Nat.toDigits_zero]
    rfl
  · have hLeading : digitChar d.first ≠ '0' := by
      have hOthers : ∀ first : Fin 10, first ≠ 0 → digitChar first ≠ '0' := by
        decide
      exact hOthers d.first (hFirst hZero)
    unfold scanWhole?
    split
    · next rest' hSame =>
      rw [hChars] at hSame
      exact absurd (List.cons.inj hSame).1 hLeading
    · rw [hChars, Digits.scan?_append d h]
      simp only [hValue]

/- No digit is taken for a sign. -/
theorem scanEitherSign_digits
    (d : Digits)
    (rest : List Char) :
    scanEitherSign (d.chars ++ rest) = (false, d.chars ++ rest) := by
  have hDigit := isDigit_digitChar d.first
  unfold scanEitherSign
  split
  · next hSame =>
    rw [(List.cons.inj hSame).1] at hDigit
    exact absurd hDigit (by decide)
  · next hSame =>
    rw [(List.cons.inj hSame).1] at hDigit
    exact absurd hDigit (by decide)
  · rfl

theorem scanPower?_append
    (signs : List Char)
    {negative : Bool}
    (d : Digits)
    {rest : List Char}
    (h : Decimal.Stops rest)
    (hSigns : scanEitherSign (signs ++ (d.chars ++ rest)) =
      (negative, d.chars ++ rest)) :
    scanPower? (signs ++ (d.chars ++ rest)) =
      some (some ⟨negative, d⟩, rest) := by
  unfold scanPower?
  simp only [hSigns, Digits.scan?_append d h]

theorem scanExponent?_append
    {exponent : Option Exponent}
    {power rest : List Char}
    (hPower : Exponent.Spelled exponent power)
    (h : Ends rest) :
    scanExponent? (power ++ rest) = some (exponent, rest) := by
  have hLetter : ∀ {letter : Char} (text : List Char),
      letter = 'e' ∨ letter = 'E' →
        scanExponent? (letter :: text) = scanPower? text := by
    intro letter text hEither
    rcases hEither with hLower | hUpper
    · rw [hLower]
      rfl
    · rw [hUpper]
      rfl
  cases hPower with
  | missing =>
    rw [List.nil_append]
    unfold scanExponent?
    split
    · exact absurd rfl (h 'e' rfl).2.2.1
    · exact absurd rfl (h 'E' rfl).2.2.2
    · rfl
  | unsigned either digits =>
    rw [List.cons_append, hLetter _ either]
    exact scanPower?_append [] digits h.stops
      (scanEitherSign_digits digits rest)
  | plus either digits =>
    rw [List.cons_append, hLetter _ either]
    exact scanPower?_append ['+'] digits h.stops rfl
  | minus either digits =>
    rw [List.cons_append, hLetter _ either]
    exact scanPower?_append ['-'] digits h.stops rfl

/- A fraction, or none, is read up to where it ends. -/
theorem scanFraction?_append
    (fraction : Option Digits)
    {rest : List Char}
    (h : Decimal.Stops rest)
    (hPoint : ∀ c ∈ rest.head?, c ≠ '.') :
    scanFraction? (fractionChars fraction ++ rest) =
      some (fraction, rest) := by
  cases fraction with
  | none =>
    unfold fractionChars
    rw [List.nil_append]
    unfold scanFraction?
    split
    · exact absurd rfl (hPoint '.' rfl)
    · rfl
  | some d =>
    unfold fractionChars
    rw [List.cons_append, scanFraction?, Digits.scan?_append d h]

/- An exponent, or none, does not look like the number before it. -/
theorem head?_power
    {exponent : Option Exponent}
    {power rest : List Char}
    (hPower : Exponent.Spelled exponent power)
    (h : Ends rest) :
    ∀ c ∈ (power ++ rest).head?, c.isDigit = false ∧ c ≠ '.' := by
  have hLetter : ∀ {letter : Char} (text : List Char),
      letter = 'e' ∨ letter = 'E' →
        ∀ c ∈ (letter :: text).head?, c.isDigit = false ∧ c ≠ '.' := by
    intro letter text hEither c hHead
    rw [List.head?_cons, Option.mem_some_iff] at hHead
    rw [← hHead]
    rcases hEither with hLower | hUpper
    · rw [hLower]
      decide
    · rw [hUpper]
      decide
  cases hPower with
  | missing =>
    intro c hHead
    exact ⟨(h c hHead).1, (h c hHead).2.1⟩
  | unsigned either digits => exact hLetter _ either
  | plus either digits => exact hLetter _ either
  | minus either digits => exact hLetter _ either

/- Neither a fraction nor an exponent continues the whole part. -/
theorem stops_fractionChars
    (fraction : Option Digits)
    {rest : List Char}
    (h : Decimal.Stops rest) :
    Decimal.Stops (fractionChars fraction ++ rest) := by
  cases fraction with
  | none => exact h
  | some d => exact Decimal.stops_cons _ rfl

/- A number is read from each way to write it. -/
theorem scan?_append
    {n : Number}
    {text rest : List Char}
    (h : n.Spelled text)
    (hEnds : Ends rest) : scan? (text ++ rest) = some (n, rest) := by
  rcases h with ⟨power, hPower, hText⟩
  have hHead := head?_power hPower hEnds
  have hStops : Decimal.Stops (power ++ rest) :=
    fun c hMem => (hHead c hMem).1
  have hWhole := scanWhole?_append n.whole
    (stops_fractionChars n.fraction hStops)
  have hFraction := scanFraction?_append n.fraction hStops
    (fun c hMem => (hHead c hMem).2)
  have hExponent := scanExponent?_append hPower hEnds
  have hSign :
      scanSign (text ++ rest) =
        (n.negative, Nat.toDigits 10 n.whole
          ++ (fractionChars n.fraction ++ (power ++ rest))) := by
    rw [hText, ← scanSign_append]
    simp only [List.append_assoc]
  unfold scan?
  simp only [hSign, hWhole, hFraction, hExponent]

end Number

end OrderedLog.Json
