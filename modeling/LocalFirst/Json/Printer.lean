import LocalFirst.Decimal.Layout
import LocalFirst.Json.Basic

/-!
# Compact JSON text

One line without spaces.  Strings escape the quote, the backslash and the
control characters below the space; everything else is written as it is.
Numbers that JSON cannot express are written `null`.
-/

namespace LocalFirst

namespace Json

def hexDigit (value : Nat) : Char :=
  "0123456789abcdef".toList.getD value '0'

/-- The escaped form of one character of a string. -/
def escapeChar (char : Char) : List Char :=
  match char with
  | '"' => ['\\', '"']
  | '\\' => ['\\', '\\']
  | '\n' => ['\\', 'n']
  | '\r' => ['\\', 'r']
  | '\t' => ['\\', 't']
  | _ =>
      if char.toNat = 8 then ['\\', 'b']
      else if char.toNat = 12 then ['\\', 'f']
      else if char.toNat < 32 then
        ['\\', 'u', '0', '0', hexDigit (char.toNat / 16), hexDigit (char.toNat % 16)]
      else [char]

/-- A string between quotes. -/
def quoted (text : String) : List Char :=
  '"' :: (text.toList.flatMap escapeChar ++ ['"'])

def floatText (value : Float) : List Char :=
  if value.isFinite then (DecimalLayout.document.float value).toList else "null".toList

mutual

/-- The characters of a tree. -/
def chars : Json → List Char
  | .null => "null".toList
  | .bool true => "true".toList
  | .bool false => "false".toList
  | .integer value => (toString value).toList
  | .float value => floatText value
  | .string value => quoted value
  | .array [] => ['[', ']']
  | .array (first :: rest) => '[' :: (first.chars ++ itemChars rest)
  | .object [] => ['\x7b', '\x7d']
  | .object ((key, value) :: rest) =>
      '\x7b' :: (quoted key ++ ':' :: (value.chars ++ memberChars rest))

/-- The remaining items of an array, with its closing bracket. -/
def itemChars : List Json → List Char
  | [] => [']']
  | item :: rest => ',' :: (item.chars ++ itemChars rest)

/-- The remaining members of an object, with its closing brace. -/
def memberChars : List (String × Json) → List Char
  | [] => ['\x7d']
  | (key, value) :: rest => ',' :: (quoted key ++ ':' :: (value.chars ++ memberChars rest))

end

/-- The compact text of a tree. -/
def text (tree : Json) : String :=
  String.ofList tree.chars

end Json

end LocalFirst
