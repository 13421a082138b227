import OrderedLog.Json.Number
import OrderedLog.Json.Text

/-
  This file defines the tokens of JSON text. Blanks between
  tokens are skipped; nothing else is.

  Key definitions include:
    * `Token`
    * `Token.chars`
    * `Token.next?`
    * `Token.scan?`
-/

namespace OrderedLog.Json

/- The smallest parts of JSON text. -/
inductive Token where
  | openBrace
  | closeBrace
  | openBracket
  | closeBracket
  | comma
  | colon
  | null
  | bool
      (value : Bool)
  | number
      (value : Number)
  | string
      (units : List StringUnit)
deriving DecidableEq

namespace Token

/- A token as characters. -/
def chars : Token → List Char
  | openBrace => ['\x7b']
  | closeBrace => ['\x7d']
  | openBracket => ['[']
  | closeBracket => [']']
  | comma => [',']
  | colon => [':']
  | null => "null".toList
  | bool true => "true".toList
  | bool false => "false".toList
  | number n => n.chars
  | string units => quote units

/- Whether a character may stand between two tokens. -/
def blank (c : Char) : Bool :=
  c = ' ' ∨ c = '\x09' ∨ c = '\x0a' ∨ c = '\x0d'

/- The token at the start of a text, and what follows it. -/
def next? : List Char → Option (Token × List Char)
  | '\x7b' :: rest => some (openBrace, rest)
  | '\x7d' :: rest => some (closeBrace, rest)
  | '[' :: rest => some (openBracket, rest)
  | ']' :: rest => some (closeBracket, rest)
  | ',' :: rest => some (comma, rest)
  | ':' :: rest => some (colon, rest)
  | 'n' :: 'u' :: 'l' :: 'l' :: rest => some (null, rest)
  | 't' :: 'r' :: 'u' :: 'e' :: rest => some (bool true, rest)
  | 'f' :: 'a' :: 'l' :: 's' :: 'e' :: rest => some (bool false, rest)
  | '\x22' :: rest =>
    match scanUnits? rest with
    | some (units, rest) => some (string units, rest)
    | none => none
  | text =>
    match Number.scan? text with
    | some (n, rest) => some (number n, rest)
    | none => none

/- The tokens of a text of at most `size` tokens and blanks. -/
def scanUpTo? :
    (size : Nat) → List Char → Option (List Token)
  | _, [] => some []
  | 0, _ :: _ => none
  | size + 1, c :: rest =>
    if blank c then scanUpTo? size rest
    else
      match next? (c :: rest) with
      | some (token, after) =>
        match scanUpTo? size after with
        | some tokens => some (token :: tokens)
        | none => none
      | none => none

/- The tokens of a text, which has no more of them than characters. -/
def scan? (text : List Char) : Option (List Token) :=
  scanUpTo? text.length text

end Token

end OrderedLog.Json
