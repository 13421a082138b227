import Mathlib.Algebra.GroupWithZero.Nat
import Mathlib.Tactic.Common
import OrderedLog.StreamId

/-
  This file proves that identifiers of streams are read back
  from what is written for them. All hyphenated forms have the
  same length, so one can be cut off the start of a text.

  Key lemmas include:
    * `Hex.length_digits`
    * `Hex.value?_digits`
    * `StreamId.unhyphenate?_hyphenate`
    * `StreamId.length_chars`
    * `StreamId.read?_chars`
    * `StreamId.chars_append_inj`
-/

namespace OrderedLog

------------------------------------------------------------
-- Hexadecimal digits
------------------------------------------------------------

namespace Hex

@[simp]
theorem length_digits (width n : Nat) : (digits width n).length = width := by
  induction width generalizing n with
  | zero => rfl
  | succ width ih => rw [digits, List.length_append, ih]; rfl

theorem digitValue?_digitChar (d : Fin 16) :
    digitValue? (Nat.digitChar d.val) = some d.val := by
  revert d
  decide

@[simp]
theorem digitValue?_digit (n : Nat) : digitValue? (digit n) = some (n % 16) :=
  digitValue?_digitChar ⟨n % 16, Nat.mod_lt n (by decide)⟩

theorem valueFrom?_append
    (start : Nat)
    (text more : List Char) :
    valueFrom? start (text ++ more) =
      (valueFrom? start text).bind (fun value => valueFrom? value more) := by
  induction text generalizing start with
  | nil => rfl
  | cons c text ih =>
    rw [List.cons_append, valueFrom?, valueFrom?]
    cases digitValue? c with
    | none => rfl
    | some d => exact ih (16 * start + d)

/- The digits of a number stand for as much of it as they hold. -/
theorem value?_digits (width n : Nat) :
    value? (digits width n) = some (n % 16 ^ width) := by
  unfold value?
  induction width generalizing n with
  | zero => rw [Nat.pow_zero, Nat.mod_one]; rfl
  | succ width ih =>
    have hSplit : n % 16 ^ (width + 1) =
        16 * (n / 16 % 16 ^ width) + n % 16 := by
      rw [Nat.pow_succ', Nat.mod_mul, Nat.add_comm]
    rw [digits, valueFrom?_append, ih, Option.bind_some, valueFrom?,
      digitValue?_digit, hSplit]
    rfl

theorem exists_digit_of_mem
    {width n : Nat}
    {c : Char}
    (h : c ∈ digits width n) : ∃ d : Fin 16, c = Nat.digitChar d.val := by
  induction width generalizing n with
  | zero => cases h
  | succ width ih =>
    rw [digits, List.mem_append, List.mem_singleton] at h
    rcases h with hHigher | hLast
    · exact ih hHigher
    · exact ⟨⟨n % 16, Nat.mod_lt n (by decide)⟩, hLast⟩

end Hex

namespace StreamId

------------------------------------------------------------
-- Hyphens
------------------------------------------------------------

/- Hyphens that were put in are found and taken out again. -/
theorem unhyphenate?_hyphenate
    (widths : List Nat)
    {digits : List Char}
    (h : digits.length = widths.sum) :
    unhyphenate? widths (hyphenate widths digits) = some digits := by
  induction widths generalizing digits with
  | nil =>
    rw [List.sum_nil, List.length_eq_zero_iff] at h
    rw [h]
    rfl
  | cons width widths ih =>
    rw [List.sum_cons] at h
    have hTake : (digits.take width).length = width := by
      rw [List.length_take]
      omega
    cases widths with
    | nil =>
      have hAll : digits.take width = digits := by
        apply List.take_of_length_le
        rw [List.sum_nil] at h
        omega
      rw [hyphenate, unhyphenate?, if_pos hTake, hAll]
    | cons next widths =>
      have hRest : (digits.drop width).length =
          (next :: widths).sum := by
        rw [List.length_drop]
        omega
      rw [hyphenate, unhyphenate?, List.drop_left' hTake]
      simp only [ih hRest, List.take_left' hTake, List.take_append_drop]
      intro h'
      cases h'
      intro h'
      cases h'

@[simp]
theorem length_chars (s : StreamId) : s.chars.length = 36 := by
  simp [chars, groups, hyphenate, hexDigits]

------------------------------------------------------------
-- Reading back
------------------------------------------------------------

theorem ofHex?_hexDigits (s : StreamId) : ofHex? s.hexDigits = some s := by
  have hValue : s.val % 16 ^ 32 = s.val :=
    Nat.mod_eq_of_lt (Nat.lt_of_lt_of_eq s.val_lt (by decide))
  unfold ofHex? hexDigits
  rw [if_pos (Hex.length_digits 32 s.val), Hex.value?_digits, hValue]
  exact dif_pos s.val_lt

theorem ofHyphenated?_chars (s : StreamId) :
    ofHyphenated? s.chars = some s := by
  have hDigits : s.hexDigits.length = groups.sum :=
    Hex.length_digits 32 s.val
  unfold ofHyphenated? chars
  rw [unhyphenate?_hyphenate groups hDigits]
  exact ofHex?_hexDigits s

/- What is written for an identifier starts with a digit. -/
theorem exists_digit_chars (s : StreamId) :
    ∃ d : Fin 16, ∃ rest, s.chars = Nat.digitChar d.val :: rest := by
  have hLength : s.hexDigits.length = 32 := Hex.length_digits 32 s.val
  cases hDigits : s.hexDigits with
  | nil => simp [hDigits] at hLength
  | cons c digits =>
    have hMem : c ∈ s.hexDigits := by
      rw [hDigits]
      exact List.mem_cons_self
    rcases Hex.exists_digit_of_mem hMem with ⟨d, hDigit⟩
    have hChars : s.chars =
        c :: (digits.take 7 ++ '-' :: hyphenate groups.tail (digits.drop 7)) := by
      rw [chars, hDigits]
      rfl
    exact ⟨d, _, hDigit ▸ hChars⟩

/- No digit starts a form in braces or a resource name. -/
theorem digitChar_starts_nothing (d : Fin 16) :
    Nat.digitChar d.val ≠ '\x7b' ∧ (Nat.digitChar d.val).toLower ≠ 'u' := by
  revert d
  decide

/- An identifier is read from what is written for it. -/
theorem read?_chars (s : StreamId) : read? s.chars = some s := by
  rcases s.exists_digit_chars with ⟨d, rest, hChars⟩
  rcases digitChar_starts_nothing d with ⟨hBrace, hScheme⟩
  have hHex : ofHex? s.chars = none := by
    unfold ofHex?
    rw [length_chars, if_neg (by decide)]
  have hUnbrace : unbrace? s.chars = none := by
    rw [hChars, unbrace?]
    exact fun _ hStart => hBrace (List.cons.inj hStart).1
  have hName : afterScheme? s.chars = none := by
    have hOther :
        (s.chars.take scheme.length).map Char.toLower ≠ scheme := by
      rw [hChars]
      intro hSame
      exact hScheme (List.cons.inj hSame).1
    unfold afterScheme?
    rw [if_neg hOther]
  unfold read?
  rw [hHex, hUnbrace, hName]
  exact s.ofHyphenated?_chars

theorem chars_inj
    {s t : StreamId} : s.chars = t.chars ↔ s = t := by
  constructor
  · intro hSame
    have hRead := congrArg read? hSame
    rw [read?_chars, read?_chars] at hRead
    exact Option.some.inj hRead
  · exact congrArg chars

/- An identifier, and the text after it, are told apart from others. -/
theorem chars_append_inj
    {s t : StreamId}
    {rest rest' : List Char} :
    s.chars ++ rest = t.chars ++ rest' ↔ s = t ∧ rest = rest' := by
  constructor
  · intro hSame
    have hLength : s.chars.length = t.chars.length := by
      rw [length_chars, length_chars]
    have hBoth := List.append_inj hSame hLength
    exact ⟨chars_inj.mp hBoth.1, hBoth.2⟩
  · intro hBoth
    rw [hBoth.1, hBoth.2]

end StreamId

end OrderedLog
