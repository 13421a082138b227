import OrderedLog.Json.Basic

/-
  This file defines how the parts of a record are found in a
  document: by name in an object, in any order and among
  fields of other names, or by place in an array.

  Key definitions include:
    * `Json.named?`
    * `Json.unique?`
    * `Json.member?`
    * `Json.natural?`
    * `Json.word?`
-/

namespace OrderedLog.Json

------------------------------------------------------------
-- Simple values
------------------------------------------------------------

/- A natural number below a bound. -/
def natural?
    (bound : Nat) : Json → Option Nat
  | number n =>
    match n.natural? with
    | some value => if value < bound then some value else none
    | none => none
  | _ => none

/- A natural number of 64 bits. -/
def word? (j : Json) : Option UInt64 :=
  (natural? UInt64.size j).map UInt64.ofNat

/- A natural number of 64 bits as a document. -/
def ofWord (n : UInt64) : Json :=
  number (.ofNat n.toNat)

/- The characters of a string. -/
def text? : Json → Option (List Char)
  | string units => textOf? units
  | _ => none

/- A string of some characters. -/
def ofText (text : List Char) : Json :=
  string (unitsOf text)

------------------------------------------------------------
-- Records
------------------------------------------------------------

/- A field of an object that is written. -/
def field
    (name : String)
    (value : Json) : List StringUnit × Json :=
  (unitsOf name.toList, value)

/- The fields of an object with their names as text. -/
def named? :
    List (List StringUnit × Json) → Option (List (List Char × Json))
  | [] => some []
  | (name, value) :: fields =>
    match textOf? name, named? fields with
    | some name, some fields => some ((name, value) :: fields)
    | _, _ => none

/-
  The values of all fields of a name. Names are told apart by
  all their characters.
-/
def valuesOf
    (fields : List (List Char × Json))
    (name : String) : List Json :=
  (fields.filter (fun f => f.1 = name.toList)).map Prod.snd

/- The value of a field that must be there exactly once. -/
def unique?
    {α : Type}
    (read? : Json → Option α)
    (fields : List (List Char × Json))
    (name : String) : Option α :=
  match valuesOf fields name with
  | [value] => read? value
  | _ => none

/- The value of a field that may be missing, but not repeated. -/
def member?
    {α : Type}
    (read? : Json → Option α)
    (missing : α)
    (fields : List (List Char × Json))
    (name : String) : Option α :=
  match valuesOf fields name with
  | [] => some missing
  | [value] => read? value
  | _ => none

/- The value at a place that may be missing. -/
def item?
    {α : Type}
    (read? : Json → Option α)
    (missing : α)
    (items : List Json)
    (place : Nat) : Option α :=
  match items[place]? with
  | some value => read? value
  | none => some missing

end OrderedLog.Json
