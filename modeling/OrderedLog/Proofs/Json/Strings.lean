import OrderedLog.Json.Text
import OrderedLog.Proofs.Text.Identifiers

/-
  This file says in which ways a string may be written in JSON
  text, and proves that it is read from each of them. Any
  character may be escaped, and some must be.

  Key definitions include:
    * `StringUnit.Spelled`

  Key lemmas include:
    * `textOf?_unitsOf`
    * `StringUnit.spelled_chars`

  Key theorems include:
    * `scanUnits?_append`
-/

namespace OrderedLog.Json

/- Characters make up a text as they are. -/
theorem textOf?_unitsOf (text : List Char) :
    textOf? (unitsOf text) = some text := by
  unfold unitsOf
  induction text with
  | nil => rfl
  | cons c text ih =>
    rw [List.map_cons, textOf?, ih]
    rfl

namespace StringUnit

/-
  The ways to write a unit: as it is, as an escape of a letter,
  or as one of four hexadecimal digits in either case.
-/
inductive Spelled : StringUnit → List Char → Prop where
  | plain
      {c : Char}
      (allowed : StringUnit.plain c = true) :
      Spelled (.char c) [c]
  | letter
      {c e : Char}
      (known : ofLetter? e = some c) :
      Spelled (.char c) ['\x5c', e]
  | code
      {a b c d : Char}
      {n : Nat}
      (value : Hex.value? [a, b, c, d] = some n) :
      Spelled (ofCode n) ['\x5c', 'u', a, b, c, d]

/- An escape of a small number stands for the unit of that number. -/
theorem spelled_escape
    {n : Nat}
    (h : n < 65536) : (ofCode n).Spelled (escape n) := by
  have hValue := Hex.value?_digits 4 n
  rw [Nat.mod_eq_of_lt (Nat.lt_of_lt_of_eq h (by decide))] at hValue
  have hDigits : ∃ a b c d, Hex.digits 4 n = [a, b, c, d] :=
    ⟨_, _, _, _, rfl⟩
  rcases hDigits with ⟨a, b, c, d, hSame⟩
  unfold escape
  rw [hSame] at hValue ⊢
  exact Spelled.code hValue

/- A unit is spelled the way it is written. -/
theorem spelled_chars (u : StringUnit) : u.Spelled u.chars := by
  cases u with
  | char c =>
    by_cases hPlain : StringUnit.plain c = true
    · rw [chars, if_pos hPlain]
      exact Spelled.plain hPlain
    · by_cases hEither : c = '\x22' ∨ c = '\x5c'
      · rw [chars, if_neg hPlain, if_pos hEither]
        apply Spelled.letter
        rcases hEither with hQuote | hSlash
        · rw [hQuote]
          rfl
        · rw [hSlash]
          rfl
      · -- what is left are the characters below the blank
        have hLow : c.toNat < 0x20 := by
          simp only [StringUnit.plain, decide_eq_true_eq] at hPlain
          rw [not_or] at hEither
          by_contra hHigh
          exact hPlain ⟨hEither.1, hEither.2, Nat.le_of_not_lt hHigh⟩
        have hCode : ofCode c.toNat = .char c := by
          unfold ofCode
          rw [if_neg (by omega), Char.ofNat_toNat]
        rw [chars, if_neg hPlain, if_neg hEither, ← hCode]
        exact spelled_escape (by omega)
  | half offset =>
    have hCode : ofCode (0xd800 + offset.val) = .half offset := by
      unfold ofCode
      rw [if_pos (by omega), Nat.add_sub_cancel_left]
      congr 1
      exact Fin.ext (Nat.mod_eq_of_lt offset.isLt)
    have hSmall : 0xd800 + offset.val < 65536 := by
      omega
    have hSpelled := spelled_escape hSmall
    rw [hCode] at hSpelled
    exact hSpelled

end StringUnit

/- A letter of an escape is not the one that announces digits. -/
theorem ofLetter?_ne_u
    {c e : Char}
    (h : StringUnit.ofLetter? e = some c) : e ≠ 'u' := by
  intro hSame
  rw [hSame] at h
  cases h

/- A unit that is spelled out is read, and then what follows it. -/
theorem scanUnits?_unit
    {u : StringUnit}
    {part text rest : List Char}
    {units : List StringUnit}
    (h : u.Spelled part)
    (hText : scanUnits? text = some (units, rest)) :
    scanUnits? (part ++ text) = some (u :: units, rest) := by
  cases h with
  | @plain c allowed =>
    have hAllowed := allowed
    simp only [StringUnit.plain, decide_eq_true_eq] at hAllowed
    rw [List.singleton_append, scanUnits?, if_pos allowed, hText]
    · exact hAllowed.1
    · exact fun _ _ _ _ _ hSlash _ => hAllowed.2.1 hSlash
    · exact fun _ _ hSlash _ => hAllowed.2.1 hSlash
  | @letter c e known =>
    rw [List.cons_append, List.singleton_append, scanUnits?, known, hText]
    exact fun _ _ _ _ _ hLetter _ => ofLetter?_ne_u known hLetter
  | @code a b c d n value =>
    rw [List.cons_append, List.cons_append, List.cons_append,
      List.cons_append, List.cons_append, List.cons_append,
      List.nil_append, scanUnits?, value, hText]

/- A string is read from each way to write it. -/
theorem scanUnits?_append
    {units : List StringUnit}
    {parts : List (List Char)}
    (h : List.Forall₂ StringUnit.Spelled units parts)
    (rest : List Char) :
    scanUnits? (parts.flatten ++ '\x22' :: rest) = some (units, rest) := by
  induction h with
  | nil => rfl
  | cons hUnit _ ih =>
    rw [List.flatten_cons, List.append_assoc]
    exact scanUnits?_unit hUnit ih

end OrderedLog.Json
