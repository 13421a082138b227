import OrderedLog.Json.Token

/-
  This file defines JSON documents, how they are written
  without blanks, and how they are read.

  Key definitions include:
    * `Json`
    * `Json.tokens`
    * `Json.render`
    * `Json.parse?`
-/

namespace OrderedLog

/- A JSON document. The fields of an object are kept in order. -/
inductive Json where
  | null
  | bool
      (value : Bool)
  | number
      (value : Json.Number)
  | string
      (units : List Json.StringUnit)
  | array
      (items : List Json)
  | object
      (fields : List (List Json.StringUnit × Json))

namespace Json

------------------------------------------------------------
-- Writing
------------------------------------------------------------

mutual

/- The tokens of a document. -/
def tokens : Json → List Token
  | null => [.null]
  | bool value => [.bool value]
  | number value => [.number value]
  | string units => [.string units]
  | array [] => [.openBracket, .closeBracket]
  | array (item :: items) => .openBracket :: tokens item ++ itemTokens items
  | object [] => [.openBrace, .closeBrace]
  | object ((name, value) :: fields) =>
    .openBrace :: .string name :: .colon :: tokens value
      ++ fieldTokens fields

/- The tokens from the end of an item to the end of its array. -/
def itemTokens : List Json → List Token
  | [] => [.closeBracket]
  | item :: items => .comma :: tokens item ++ itemTokens items

/- The tokens from the end of a field to the end of its object. -/
def fieldTokens : List (List StringUnit × Json) → List Token
  | [] => [.closeBrace]
  | (name, value) :: fields =>
    .comma :: .string name :: .colon :: tokens value
      ++ fieldTokens fields

end

/- A document as text without blanks. -/
def render (j : Json) : String :=
  String.ofList (j.tokens.flatMap Token.chars)

------------------------------------------------------------
-- Reading
------------------------------------------------------------

mutual

/- The document at the start of some tokens, and what follows it. -/
def readValue? :
    (depth : Nat) → List Token → Option (Json × List Token)
  | 0, _ => none
  | depth + 1, tokens =>
    match tokens with
    | .null :: rest => some (null, rest)
    | .bool value :: rest => some (bool value, rest)
    | .number value :: rest => some (number value, rest)
    | .string units :: rest => some (string units, rest)
    | .openBracket :: .closeBracket :: rest => some (array [], rest)
    | .openBracket :: rest =>
      match readItems? depth rest with
      | some (items, rest) => some (array items, rest)
      | none => none
    | .openBrace :: .closeBrace :: rest => some (object [], rest)
    | .openBrace :: rest =>
      match readFields? depth rest with
      | some (fields, rest) => some (object fields, rest)
      | none => none
    | _ => none

/- At least one item, up to the end of the array. -/
def readItems? :
    (depth : Nat) → List Token → Option (List Json × List Token)
  | 0, _ => none
  | depth + 1, tokens =>
    match readValue? depth tokens with
    | some (item, .closeBracket :: rest) => some ([item], rest)
    | some (item, .comma :: rest) =>
      match readItems? depth rest with
      | some (items, rest) => some (item :: items, rest)
      | none => none
    | _ => none

/- At least one field, up to the end of the object. -/
def readFields? :
    (depth : Nat) → List Token →
      Option (List (List StringUnit × Json) × List Token)
  | 0, _ => none
  | depth + 1, tokens =>
    match tokens with
    | .string name :: .colon :: rest =>
      match readValue? depth rest with
      | some (value, .closeBrace :: rest) => some ([(name, value)], rest)
      | some (value, .comma :: rest) =>
        match readFields? depth rest with
        | some (fields, rest) => some ((name, value) :: fields, rest)
        | none => none
      | _ => none
    | _ => none

end

/-
  The document of a sequence of tokens. Every step down or
  along uses up a token, so their number, with one to spare,
  bounds the depth.
-/
def ofTokens? (tokens : List Token) : Option Json :=
  match readValue? (tokens.length + 1) tokens with
  | some (j, []) => some j
  | _ => none

/- The document that a text holds, with blanks around it or not. -/
def parse? (text : String) : Option Json :=
  match Token.scan? text.toList with
  | some tokens => ofTokens? tokens
  | none => none

end Json

end OrderedLog
