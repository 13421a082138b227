import OrderedLog.StreamId

/-
  This file defines conflict keys: what a transaction names
  to say which part of which stream it reads or writes.

  Key definitions include:
    * `ConflictKey`
    * `ConflictKey.chars`
    * `ConflictKey.text`
-/

namespace OrderedLog

/- A stream and a byte string that names a part of it. -/
structure ConflictKey where
  stream : StreamId
  param : List UInt8
deriving DecidableEq

namespace ConflictKey

/- Keys are ordered by stream, then by parameter. -/
instance : KeyOrder ConflictKey :=
  KeyOrder.lexicographic stream param
    (fun {a b} hs hp => by
      cases a
      cases b
      cases hs
      cases hp
      rfl)

/- Bytes in decimal with a comma and a blank between two. -/
def paramChars : List UInt8 → List Char
  | [] => []
  | [b] => Nat.toDigits 10 b.toNat
  | b :: rest => Nat.toDigits 10 b.toNat ++ ',' :: ' ' :: paramChars rest

/- The stream, then the parameter in square brackets. -/
def chars (k : ConflictKey) : List Char :=
  k.stream.chars ++ '[' :: paramChars k.param ++ [']']

/- How a key is written in messages. -/
def text (k : ConflictKey) : String :=
  String.ofList k.chars

/- How a key is written among the fields of a structure. -/
def inspect (k : ConflictKey) : String :=
  String.ofList ("ConflictKey(".toList ++ k.chars ++ [')'])

end ConflictKey

end OrderedLog
