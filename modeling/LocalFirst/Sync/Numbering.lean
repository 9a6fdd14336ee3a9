import LocalFirst.Json.Basic
import LocalFirst.Sync.Identifier

/-!
# Numbering of identifiers

Which identifiers nodes issue is of no interest to a reader of a trace.  In a
numbered trace each of them is replaced by its number, in order of first
appearance, and such a number in a step stands for the identifier again.
-/

namespace LocalFirst

/-- The identifiers numbered so far. -/
abbrev Numbering :=
  List String

namespace Numbering

/-- The length of an identifier. -/
def width : Nat :=
  26

/-- Whether some characters are an identifier. -/
def isIdentifier (chars : List Char) : Bool :=
  chars.length == width && chars.all Char.isDigit && chars.take 2 == ['0', '1']

/-- The place of an identifier, which is new if it was not numbered before. -/
def place (numbering : Numbering) (id : String) : Nat × Numbering :=
  match numbering.idxOf? id with
  | some index => (index, numbering)
  | none => (numbering.length, numbering ++ [id])

/-- The text that stands for the identifier at a place. -/
def label (index : Nat) : List Char :=
  "<id".toList ++ Nat.toDigits 10 (index + 1) ++ ['>']

/-- Number the identifiers in a text. -/
def hideIn (numbering : Numbering) : List Char → List Char × Numbering
  | [] => ([], numbering)
  | char :: rest =>
      if isIdentifier ((char :: rest).take width) then
        let (index, numbering) := numbering.place (String.ofList ((char :: rest).take width))
        let (later, numbering) := hideIn numbering (rest.drop (width - 1))
        (label index ++ later, numbering)
      else
        let (later, numbering) := hideIn numbering rest
        (char :: later, numbering)
  termination_by text => text.length
  decreasing_by
    · simp only [List.length_drop, List.length_cons]
      omega
    · simp

mutual

/-- Number the identifiers in the strings of a tree, from left to right. -/
def hide (numbering : Numbering) : Json → Json × Numbering
  | .string text =>
      let (chars, numbering) := hideIn numbering text.toList
      (.string (String.ofList chars), numbering)
  | .array items =>
      let (items, numbering) := hideItems numbering items
      (.array items, numbering)
  | .object members =>
      let (members, numbering) := hideMembers numbering members
      (.object members, numbering)
  | other => (other, numbering)

def hideItems (numbering : Numbering) : List Json → List Json × Numbering
  | [] => ([], numbering)
  | item :: items =>
      let (item, numbering) := hide numbering item
      let (items, numbering) := hideItems numbering items
      (item :: items, numbering)

def hideMembers (numbering : Numbering) :
    List (String × Json) → List (String × Json) × Numbering
  | [] => ([], numbering)
  | (key, value) :: members =>
      let (value, numbering) := hide numbering value
      let (members, numbering) := hideMembers numbering members
      ((key, value) :: members, numbering)

end

/-- Read the label at the beginning of a text, and give the identifier that it
stands for with the text behind it. -/
def readLabel? (numbering : Numbering) (text : List Char) : Option (String × List Char) :=
  match text with
  | '<' :: 'i' :: 'd' :: rest =>
      let number := Nat.ofDigitChars 10 (rest.takeWhile Char.isDigit) 0
      match rest.dropWhile Char.isDigit with
      | '>' :: behind =>
          if number = 0 then none else (numbering[number - 1]?).map (·, behind)
      | _ => none
  | _ => none

/-- Put identifiers in the place of their labels in a text. -/
def showIn (numbering : Numbering) : Nat → List Char → List Char
  | 0, text => text
  | _ + 1, [] => []
  | length + 1, char :: rest =>
      match numbering.readLabel? (char :: rest) with
      | some (id, behind) => id.toList ++ showIn numbering length behind
      | none => char :: showIn numbering length rest

/-- Put identifiers in the place of their labels in a string. -/
def showText (numbering : Numbering) (text : String) : String :=
  String.ofList (numbering.showIn text.length text.toList)

mutual

/-- Put identifiers in the place of their labels in a tree. -/
def expand (numbering : Numbering) : Json → Json
  | .string text => .string (numbering.showText text)
  | .array items => .array (expandItems numbering items)
  | .object members => .object (Members.ofPairs (expandMembers numbering members))
  | other => other

def expandItems (numbering : Numbering) : List Json → List Json
  | [] => []
  | item :: items => expand numbering item :: expandItems numbering items

def expandMembers (numbering : Numbering) : List (String × Json) → List (String × Json)
  | [] => []
  | (key, value) :: members =>
      (numbering.showText key, expand numbering value) :: expandMembers numbering members

end

end Numbering

end LocalFirst
