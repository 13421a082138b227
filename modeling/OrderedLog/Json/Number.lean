/-
  This file defines the numbers of JSON text: a sign, a whole
  part without leading zeros, and optionally a fraction and
  an exponent. Only numbers without the latter two and
  without a sign count as natural numbers.

  Key definitions include:
    * `Number`
    * `Number.natural?`
    * `Number.chars`
    * `Number.scan?`
-/

namespace OrderedLog.Json

------------------------------------------------------------
-- Digits
------------------------------------------------------------

/- At least one decimal digit. -/
structure Digits where
  first : Fin 10
  more : List (Fin 10)
deriving DecidableEq

/- The digit that a character stands for. -/
def digit? (c : Char) : Option (Fin 10) :=
  if '0' ≤ c ∧ c ≤ '9' then some (Fin.ofNat 10 (c.toNat - '0'.toNat))
  else none

/- The character of a digit. -/
def digitChar (d : Fin 10) : Char :=
  Nat.digitChar d.val

namespace Digits

/- The digits as characters. -/
def chars (d : Digits) : List Char :=
  digitChar d.first :: d.more.map digitChar

/- The number that digits stand for, read onto a start value. -/
def valueFrom
    (start : Nat) : List (Fin 10) → Nat
  | [] => start
  | d :: rest => valueFrom (10 * start + d.val) rest

/- The number that the digits stand for. -/
def value (d : Digits) : Nat :=
  valueFrom 0 (d.first :: d.more)

/- The digits at the start of a text, and what follows them. -/
def span : List Char → List (Fin 10) × List Char
  | [] => ([], [])
  | c :: rest =>
    match digit? c with
    | some d => (d :: (span rest).1, (span rest).2)
    | none => ([], c :: rest)

/- At least one digit at the start of a text. -/
def scan? (text : List Char) : Option (Digits × List Char) :=
  match span text with
  | (first :: more, rest) => some (⟨first, more⟩, rest)
  | ([], _) => none

end Digits

------------------------------------------------------------
-- Numbers
------------------------------------------------------------

/- An exponent: whether it is negative, and its digits. -/
structure Exponent where
  negative : Bool
  digits : Digits
deriving DecidableEq

/- A number as it is written. -/
structure Number where
  negative : Bool
  whole : Nat
  fraction : Option Digits
  exponent : Option Exponent
deriving DecidableEq

namespace Number

/- A natural number, written plainly. -/
def ofNat (n : Nat) : Number :=
  ⟨false, n, none, none⟩

/- The natural number that is written plainly, if one is. -/
def natural? (n : Number) : Option Nat :=
  if n.negative then none
  else
    match n.fraction, n.exponent with
    | none, none => some n.whole
    | _, _ => none

/- The fraction as characters. -/
def fractionChars : Option Digits → List Char
  | some d => '.' :: d.chars
  | none => []

/- The exponent as characters. -/
def exponentChars : Option Exponent → List Char
  | some e => 'e' :: (if e.negative then ['-'] else []) ++ e.digits.chars
  | none => []

/- A number as characters. -/
def chars (n : Number) : List Char :=
  (if n.negative then ['-'] else []) ++ Nat.toDigits 10 n.whole
    ++ fractionChars n.fraction ++ exponentChars n.exponent

------------------------------------------------------------
-- Reading
------------------------------------------------------------

/- A minus sign at the start of a text. -/
def scanSign : List Char → Bool × List Char
  | '-' :: rest => (true, rest)
  | text => (false, text)

/- A whole part: a lone zero, or digits that start otherwise. -/
def scanWhole? (text : List Char) : Option (Nat × List Char) :=
  match text with
  | '0' :: rest => some (0, rest)
  | _ =>
    match Digits.scan? text with
    | some (digits, rest) => some (digits.value, rest)
    | none => none

/- A fraction, where a point asks for one. -/
def scanFraction? : List Char → Option (Option Digits × List Char)
  | '.' :: rest =>
    match Digits.scan? rest with
    | some (digits, rest) => some (some digits, rest)
    | none => none
  | text => some (none, text)

/- A sign of either kind at the start of a text. -/
def scanEitherSign : List Char → Bool × List Char
  | '-' :: rest => (true, rest)
  | '+' :: rest => (false, rest)
  | text => (false, text)

/- An exponent's sign and digits. -/
def scanPower? (text : List Char) : Option (Option Exponent × List Char) :=
  let signed := scanEitherSign text
  match Digits.scan? signed.2 with
  | some (digits, rest) => some (some ⟨signed.1, digits⟩, rest)
  | none => none

/- An exponent, where a letter asks for one. -/
def scanExponent? : List Char → Option (Option Exponent × List Char)
  | 'e' :: rest => scanPower? rest
  | 'E' :: rest => scanPower? rest
  | text => some (none, text)

/- The number at the start of a text, and what follows it. -/
def scan? (text : List Char) : Option (Number × List Char) :=
  let signed := scanSign text
  match scanWhole? signed.2 with
  | none => none
  | some (whole, afterWhole) =>
    match scanFraction? afterWhole with
    | none => none
    | some (fraction, afterFraction) =>
      match scanExponent? afterFraction with
      | none => none
      | some (exponent, rest) =>
        some (⟨signed.1, whole, fraction, exponent⟩, rest)

end Number

end OrderedLog.Json
