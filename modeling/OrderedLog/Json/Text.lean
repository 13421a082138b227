import OrderedLog.Text.Hex

/-
  This file defines the strings of JSON text. An escape may
  stand for half of a surrogate pair, so a string is a list
  of units, and it is a text only if its halves are paired.

  Key definitions include:
    * `StringUnit`
    * `StringUnit.chars`
    * `unitsOf`
    * `textOf?`
    * `scanUnits?`
-/

namespace OrderedLog.Json

/- A character, or a half of a surrogate pair. -/
inductive StringUnit where
  | char
      (c : Char)
  | half
      (offset : Fin 2048)
deriving DecidableEq

/- The units of a text. -/
def unitsOf (text : List Char) : List StringUnit :=
  text.map .char

/- The character of a leading and a trailing half. -/
def joinHalves
    (leading : Nat)
    (trailing : Nat) : Char :=
  Char.ofNat (0x10000 + leading * 1024 + (trailing - 1024))

/-
  The text of a string, unless some half is not part of a
  pair of a leading and a trailing one.
-/
def textOf? : List StringUnit → Option (List Char)
  | [] => some []
  | .char c :: rest => (textOf? rest).map (c :: ·)
  | .half a :: .half b :: rest =>
    if a.val < 1024 ∧ 1024 ≤ b.val then
      (textOf? rest).map (joinHalves a.val b.val :: ·)
    else
      none
  | .half _ :: _ => none

------------------------------------------------------------
-- Writing
------------------------------------------------------------

namespace StringUnit

/- Whether a character may stand in a string as it is. -/
def plain (c : Char) : Bool :=
  c ≠ '\x22' ∧ c ≠ '\x5c' ∧ 0x20 ≤ c.toNat

/- An escape of four hexadecimal digits. -/
def escape (n : Nat) : List Char :=
  '\x5c' :: 'u' :: Hex.digits 4 n

/- A unit as it is written between quotes. -/
def chars : StringUnit → List Char
  | char c =>
    if plain c then [c]
    else if c = '\x22' ∨ c = '\x5c' then ['\x5c', c]
    else escape c.toNat
  | half offset => escape (0xd800 + offset.val)

/- The unit that an escape of four hexadecimal digits stands for. -/
def ofCode (n : Nat) : StringUnit :=
  if 0xd800 ≤ n ∧ n < 0xe000 then
    half (Fin.ofNat 2048 (n - 0xd800))
  else
    char (Char.ofNat n)

/- The character of an escape of one letter. -/
def ofLetter? : Char → Option Char
  | '\x22' => some '\x22'
  | '\x5c' => some '\x5c'
  | '/' => some '/'
  | 'b' => some '\x08'
  | 'f' => some '\x0c'
  | 'n' => some '\x0a'
  | 'r' => some '\x0d'
  | 't' => some '\x09'
  | _ => none

end StringUnit

/- A string as it is written, with its quotes. -/
def quote (units : List StringUnit) : List Char :=
  '\x22' :: units.flatMap StringUnit.chars ++ ['\x22']

------------------------------------------------------------
-- Reading
------------------------------------------------------------

/-
  The units up to the closing quote, and what follows it. The
  opening quote has been read.
-/
def scanUnits? : List Char → Option (List StringUnit × List Char)
  | [] => none
  | '\x22' :: rest => some ([], rest)
  | '\x5c' :: 'u' :: a :: b :: c :: d :: rest =>
    match Hex.value? [a, b, c, d], scanUnits? rest with
    | some n, some (units, after) => some (.ofCode n :: units, after)
    | _, _ => none
  | '\x5c' :: e :: rest =>
    match StringUnit.ofLetter? e, scanUnits? rest with
    | some c, some (units, after) => some (.char c :: units, after)
    | _, _ => none
  | c :: rest =>
    if StringUnit.plain c then
      match scanUnits? rest with
      | some (units, after) => some (.char c :: units, after)
      | none => none
    else none

end OrderedLog.Json
