import OrderedLog.KeyOrder
import OrderedLog.Text.Hex

/-
  This file defines the identifiers of streams. An object is
  identified by the stream its updates are appended to.

  Key definitions include:
    * `StreamId`
    * `StreamId.hexDigits`
    * `StreamId.chars`
    * `StreamId.text`
    * `StreamId.read?`
-/

namespace OrderedLog

/- The number of identifiers of 128 bits. -/
abbrev StreamId.count : Nat :=
  340282366920938463463374607431768211456

/- A 128-bit identifier. -/
structure StreamId where
  val : Nat
  val_lt : val < StreamId.count
deriving DecidableEq

namespace StreamId

/- Identifiers are equal when their numbers are. -/
theorem eq_of_val_eq
    {a b : StreamId}
    (h : a.val = b.val) : a = b := by
  cases a
  cases b
  cases h
  rfl

/-
  Identifiers are ordered as numbers, which is the order of
  their 16 bytes, the most significant one first.
-/
instance : KeyOrder StreamId :=
  KeyOrder.lift val eq_of_val_eq

/- The identifier of a number, if the number is in range. -/
def ofNat? (n : Nat) : Option StreamId :=
  if h : n < count then some ⟨n, h⟩ else none

/- The identifier of a number counted in 128 bits. -/
def ofNat (n : Nat) : StreamId :=
  ⟨n % count, Nat.mod_lt n (by decide)⟩

------------------------------------------------------------
-- Text
------------------------------------------------------------

/- The 16 bytes as 32 hexadecimal digits. -/
def hexDigits (s : StreamId) : List Char :=
  Hex.digits 32 s.val

/- Sizes of the groups of digits in the hyphenated form. -/
def groups : List Nat :=
  [8, 4, 4, 4, 12]

/- Write digits in groups with a hyphen between two groups. -/
def hyphenate : List Nat → List Char → List Char
  | [], _ => []
  | [width], digits => digits.take width
  | width :: widths, digits =>
    digits.take width ++ '-' :: hyphenate widths (digits.drop width)

/-
  The digits of a text in groups, unless some hyphen is not
  where the groups ask for one.
-/
def unhyphenate? : List Nat → List Char → Option (List Char)
  | [], text => if text.isEmpty then some [] else none
  | [width], text => if text.length = width then some text else none
  | width :: widths, text =>
    match text.drop width with
    | '-' :: rest =>
      match unhyphenate? widths rest with
      | some digits => some (text.take width ++ digits)
      | none => none
    | _ => none

/- The hyphenated form as characters. -/
def chars (s : StreamId) : List Char :=
  hyphenate groups s.hexDigits

/- The hyphenated form, in lower case. -/
def text (s : StreamId) : String :=
  String.ofList s.chars

/- How an identifier is written among the fields of a structure. -/
def inspect (s : StreamId) : String :=
  String.ofList ("StreamId(".toList ++ s.chars ++ [')'])

------------------------------------------------------------
-- Reading
------------------------------------------------------------

/- The identifier of 32 hexadecimal digits. -/
def ofHex? (digits : List Char) : Option StreamId :=
  if digits.length = 32 then
    match Hex.value? digits with
    | some n => ofNat? n
    | none => none
  else none

/- The identifier in hyphenated form. -/
def ofHyphenated? (text : List Char) : Option StreamId :=
  match unhyphenate? groups text with
  | some digits => ofHex? digits
  | none => none

/- The hyphenated part of a form in braces. -/
def unbrace? : List Char → Option (List Char)
  | '\x7b' :: rest =>
    if rest.getLast? = some '\x7d' then some rest.dropLast else none
  | _ => none

/- What a resource name starts with, in lower case. -/
def scheme : List Char :=
  "urn:uuid:".toList

/-
  The hyphenated part of a resource name. Each letter of its
  start may be in either case.
-/
def afterScheme? (text : List Char) : Option (List Char) :=
  if (text.take scheme.length).map Char.toLower = scheme then
    some (text.drop scheme.length)
  else none

/-
  Read an identifier: 32 digits, the hyphenated form, or the
  hyphenated form in braces or as a resource name.
-/
def read? (text : List Char) : Option StreamId :=
  match ofHex? text with
  | some s => some s
  | none =>
    match unbrace? text with
    | some inner => ofHyphenated? inner
    | none =>
      match afterScheme? text with
      | some inner => ofHyphenated? inner
      | none => ofHyphenated? text

end StreamId

end OrderedLog
