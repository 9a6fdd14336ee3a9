import LocalFirst.Decimal.Layout

/-!
# Tokens of JSON text

The lexer reads one character at a time, so it is a fold over the text.  Words
(literals and numbers) run until a character that no word contains, and are
recognised when they end.  A text with anything that is not a token is refused
as a whole.
-/

namespace LocalFirst

inductive Json.Token where
  | openBracket
  | closeBracket
  | openBrace
  | closeBrace
  | comma
  | colon
  | null
  | bool (value : Bool)
  | integer (value : Int)
  | float (value : Float)
  | string (value : String)

namespace Json.Token

/-- The natural number written by decimal digits. -/
def natural (digits : List Char) : Nat :=
  Nat.ofDigitChars 10 digits 0

/-- A number literal cut into its parts. -/
structure Numeral where
  negative : Bool
  whole : List Char
  fraction : Option (List Char)
  exponent : Option (Bool × List Char)

/-- The exponent part: empty, or a mark, an optional sign and digits. -/
def exponentPart? : List Char → Option (Option (Bool × List Char))
  | [] => some none
  | mark :: rest =>
      if mark = 'e' ∨ mark = 'E' then
        let (negative, digits) := match rest with
          | '-' :: digits => (true, digits)
          | '+' :: digits => (false, digits)
          | digits => (false, digits)
        if digits.isEmpty ∨ ¬ digits.all Char.isDigit then none
        else some (some (negative, digits))
      else none

/-- Cut a word into the parts of a number literal. -/
def numeral? (word : List Char) : Option Numeral :=
  let (negative, unsigned) := match word with
    | '-' :: rest => (true, rest)
    | rest => (false, rest)
  let whole := unsigned.takeWhile Char.isDigit
  let afterWhole := unsigned.dropWhile Char.isDigit
  if whole.isEmpty ∨ (whole.head? = some '0' ∧ 1 < whole.length) then none
  else
    match afterWhole with
    | '.' :: rest =>
        let fraction := rest.takeWhile Char.isDigit
        if fraction.isEmpty then none
        else
          (exponentPart? (rest.dropWhile Char.isDigit)).map
            (⟨negative, whole, some fraction, ·⟩)
    | rest => (exponentPart? rest).map (⟨negative, whole, none, ·⟩)

namespace Numeral

/-- The double nearest to the literal, unless it is too large. -/
def toFloat? (literal : Numeral) : Option Float :=
  let fraction := literal.fraction.getD []
  let scale : Int := match literal.exponent with
    | none => 0
    | some (true, digits) => -(natural digits : Int)
    | some (false, digits) => natural digits
  let magnitude : Decimal :=
    ⟨natural (literal.whole ++ fraction), scale - fraction.length⟩
  magnitude.toFloat?.map (fun value => if literal.negative then -value else value)

/-- An integer literal keeps its value when 64 bits can hold it; a negative
zero and every other number is a double. -/
def token? (literal : Numeral) : Option Token :=
  let asFloat := literal.toFloat?.map Token.float
  match literal.fraction, literal.exponent with
  | none, none =>
      let size := natural literal.whole
      if literal.negative then
        if 0 < size ∧ Int64.minValue.toInt ≤ -(size : Int) then some (.integer (-(size : Int)))
        else asFloat
      else
        if size < UInt64.size then some (.integer size) else asFloat
  | _, _ => asFloat

end Numeral

/-- A word is a literal name or a number. -/
def ofWord? (word : List Char) : Option Token :=
  if word = "null".toList then some .null
  else if word = "true".toList then some (.bool true)
  else if word = "false".toList then some (.bool false)
  else (numeral? word).bind Numeral.token?

/-- What the lexer is in the middle of.  Text is kept in reverse. -/
inductive Scan where
  | between
  | word (letters : List Char)
  | text (written : List Char)
  | escape (written : List Char) (high : Option Nat)
  | unicode (written : List Char) (high : Option Nat) (digits : List Nat)
  | lowSurrogate (written : List Char) (high : Nat)

def isBlank (char : Char) : Bool :=
  char = ' ' || char = '\t' || char = '\n' || char = '\r'

def isWordChar (char : Char) : Bool :=
  char.isAlphanum || char = '-' || char = '+' || char = '.'

/-- A character that is a token of its own. -/
def ofPunctuation? (char : Char) : Option Token :=
  match char with
  | '[' => some .openBracket
  | ']' => some .closeBracket
  | '\x7b' => some .openBrace
  | '\x7d' => some .closeBrace
  | ',' => some .comma
  | ':' => some .colon
  | _ => none

def hexValue? (char : Char) : Option Nat :=
  if char.isDigit then some (char.toNat - '0'.toNat)
  else if 'a' ≤ char ∧ char ≤ 'f' then some (char.toNat - 'a'.toNat + 10)
  else if 'A' ≤ char ∧ char ≤ 'F' then some (char.toNat - 'A'.toNat + 10)
  else none

/-- The character that a one-letter escape stands for. -/
def ofEscape? (char : Char) : Option Char :=
  match char with
  | '"' => some '"'
  | '\\' => some '\\'
  | '/' => some '/'
  | 'b' => some (Char.ofNat 8)
  | 'f' => some (Char.ofNat 12)
  | 'n' => some '\n'
  | 'r' => some '\r'
  | 't' => some '\t'
  | _ => none

/-- Finish a four-digit escape.  A high surrogate waits for its partner, and a
surrogate without one is refused. -/
def closeUnicode (written : List Char) (high : Option Nat) (unit : Nat) : Option Scan :=
  match high with
  | none =>
      if 0xD800 ≤ unit ∧ unit < 0xDC00 then some (.lowSurrogate written unit)
      else if 0xDC00 ≤ unit ∧ unit < 0xE000 then none
      else some (.text (Char.ofNat unit :: written))
  | some first =>
      if 0xDC00 ≤ unit ∧ unit < 0xE000 then
        let code := 0x10000 + (first - 0xD800) * 0x400 + (unit - 0xDC00)
        some (.text (Char.ofNat code :: written))
      else none

/-- Read a character outside of strings and words. -/
def scanBetween (tokens : List Token) (char : Char) : Option (Scan × List Token) :=
  if isBlank char then some (.between, tokens)
  else if char = '"' then some (.text [], tokens)
  else if isWordChar char then some (.word [char], tokens)
  else (ofPunctuation? char).map (fun token => (.between, token :: tokens))

/-- Read one character.  The tokens so far are kept in reverse. -/
def scanChar (state : Scan × List Token) (char : Char) : Option (Scan × List Token) :=
  let (scan, tokens) := state
  match scan with
  | .between => scanBetween tokens char
  | .word letters =>
      if isWordChar char then some (.word (char :: letters), tokens)
      else (ofWord? letters.reverse).bind (fun token => scanBetween (token :: tokens) char)
  | .text written =>
      if char = '"' then some (.between, .string (String.ofList written.reverse) :: tokens)
      else if char = '\\' then some (.escape written none, tokens)
      else if char.toNat < 32 then none
      else some (.text (char :: written), tokens)
  | .escape written high =>
      if char = 'u' then some (.unicode written high [], tokens)
      else if high.isSome then none
      else (ofEscape? char).map (fun escaped => (.text (escaped :: written), tokens))
  | .unicode written high digits =>
      (hexValue? char).bind (fun digit =>
        let digits := digits ++ [digit]
        if digits.length < 4 then some (.unicode written high digits, tokens)
        else
          (closeUnicode written high (digits.foldl (16 * · + ·) 0)).map (·, tokens))
  | .lowSurrogate written high =>
      if char = '\\' then some (.escape written (some high), tokens) else none

/-- The tokens of a text, if it consists of tokens and blanks only. -/
def ofText? (text : String) : Option (List Token) := do
  let (scan, tokens) ← text.toList.foldlM scanChar (.between, [])
  match scan with
  | .between => some tokens.reverse
  | .word letters => (ofWord? letters.reverse).map (fun token => (token :: tokens).reverse)
  | _ => none

end Json.Token

end LocalFirst
