import Mathlib.Tactic.Common

/-
  This file proves that decimal numbers can be told apart in a
  text. A number ends where its digits end, so the text from
  there on and the number itself can both be read off.

  Key definitions include:
    * `Decimal.Stops`

  Key lemmas include:
    * `Decimal.exists_toDigits_eq_cons`
    * `Decimal.toDigits_inj`
    * `Decimal.toDigits_append_inj`
-/

namespace OrderedLog.Decimal

/- A text that does not go on with a digit. -/
def Stops (rest : List Char) : Prop :=
  ∀ c ∈ rest.head?, c.isDigit = false

theorem stops_nil : Stops [] := by
  intro c hHead
  cases hHead

theorem stops_cons
    {c : Char}
    (rest : List Char)
    (h : c.isDigit = false) : Stops (c :: rest) := by
  intro d hHead
  rw [List.head?_cons, Option.mem_some_iff] at hHead
  exact hHead ▸ h

theorem isDigit_of_mem
    {n : Nat}
    {c : Char}
    (h : c ∈ Nat.toDigits 10 n) : c.isDigit = true :=
  Nat.isDigit_of_mem_toDigits (by decide) (by decide) h

/- A number starts with a digit. -/
theorem exists_toDigits_eq_cons (n : Nat) :
    ∃ c more, Nat.toDigits 10 n = c :: more ∧ c.isDigit = true := by
  cases hDigits : Nat.toDigits 10 n with
  | nil => exact absurd hDigits Nat.toDigits_ne_nil
  | cons c more =>
    have hMem : c ∈ Nat.toDigits 10 n := by
      rw [hDigits]
      exact List.mem_cons_self
    exact ⟨c, more, rfl, isDigit_of_mem hMem⟩

/- Numbers are equal when they are written alike. -/
theorem toDigits_inj
    {m n : Nat} : Nat.toDigits 10 m = Nat.toDigits 10 n ↔ m = n := by
  constructor
  · intro hSame
    have hRead := congrArg (fun text => Nat.ofDigitChars 10 text 0) hSame
    simpa using hRead
  · exact congrArg (Nat.toDigits 10)

/- The digits at the start of a text are those of its number. -/
theorem takeWhile_toDigits_append
    (n : Nat)
    {rest : List Char}
    (h : Stops rest) :
    (Nat.toDigits 10 n ++ rest).takeWhile Char.isDigit =
      Nat.toDigits 10 n := by
  have hRest : rest.takeWhile Char.isDigit = [] := by
    cases rest with
    | nil => rfl
    | cons c rest => simp [h c rfl]
  rw [List.takeWhile_append_of_pos (fun _ => isDigit_of_mem), hRest,
    List.append_nil]

/- A number, and the text after it, are told apart from others. -/
theorem toDigits_append_inj
    {m n : Nat}
    {rest rest' : List Char}
    (h : Stops rest)
    (h' : Stops rest') :
    Nat.toDigits 10 m ++ rest = Nat.toDigits 10 n ++ rest' ↔
      m = n ∧ rest = rest' := by
  constructor
  · intro hSame
    have hDigits : Nat.toDigits 10 m = Nat.toDigits 10 n := by
      rw [← takeWhile_toDigits_append m h, hSame,
        takeWhile_toDigits_append n h']
    refine ⟨toDigits_inj.mp hDigits, ?_⟩
    rw [hDigits] at hSame
    exact List.append_cancel_left hSame
  · intro hBoth
    rw [hBoth.1, hBoth.2]

end OrderedLog.Decimal
