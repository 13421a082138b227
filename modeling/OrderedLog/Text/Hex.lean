/-
  This file defines hexadecimal text: numbers written with a
  fixed count of lower-case digits, the most significant one
  first, and read in either case.

  Key definitions include:
    * `Hex.digit`
    * `Hex.digits`
    * `Hex.digitValue?`
    * `Hex.value?`
    * `Hex.ofBytes`
    * `Hex.bytes?`
-/

namespace OrderedLog.Hex

/- The digit of value `n`, counted modulo 16. -/
def digit (n : Nat) : Char :=
  Nat.digitChar (n % 16)

/- The last `width` digits of a number. -/
def digits
    (width : Nat)
    (n : Nat) : List Char :=
  match width with
  | 0 => []
  | width + 1 => digits width (n / 16) ++ [digit n]

/- The value of a digit in either case. -/
def digitValue? (c : Char) : Option Nat :=
  if '0' ≤ c ∧ c ≤ '9' then some (c.toNat - '0'.toNat)
  else if 'a' ≤ c ∧ c ≤ 'f' then some (c.toNat - 'a'.toNat + 10)
  else if 'A' ≤ c ∧ c ≤ 'F' then some (c.toNat - 'A'.toNat + 10)
  else none

/- Read digits onto the value of those already read. -/
def valueFrom?
    (start : Nat) : List Char → Option Nat
  | [] => some start
  | c :: rest =>
    match digitValue? c with
    | some d => valueFrom? (16 * start + d) rest
    | none => none

/- The value of a text of hexadecimal digits alone. -/
def value? (text : List Char) : Option Nat :=
  valueFrom? 0 text

/- Bytes, two digits each. -/
def ofBytes (bytes : List UInt8) : List Char :=
  bytes.flatMap (fun b => digits 2 b.toNat)

/- The bytes of a text of two digits each. -/
def bytes? : List Char → Option (List UInt8)
  | [] => some []
  | [_] => none
  | c :: d :: rest =>
    match value? [c, d], bytes? rest with
    | some b, some bytes => some (UInt8.ofNat b :: bytes)
    | _, _ => none

end OrderedLog.Hex
