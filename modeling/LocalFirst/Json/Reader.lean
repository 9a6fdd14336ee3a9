import LocalFirst.Json.Basic
import LocalFirst.Json.Token

/-!
# Reading JSON

A text is read token by token, with a stack of the containers that are still
open.  A repeated key keeps its first place and its last value.
-/

namespace LocalFirst

namespace Json

/-- A container whose closing token has not come yet.  Array items are kept in
reverse; a field is an object that waits for the value of a key. -/
inductive Open where
  | array (items : List Json)
  | object (members : List (String × Json))
  | field (members : List (String × Json)) (key : String)

/-- What may come next. -/
inductive Expected where
  | value
  | firstItem
  | firstKey
  | key
  | colon (key : String)
  | separator
  | nothing (tree : Json)

structure Reading where
  stack : List Open
  expected : Expected

namespace Reading

/-- Hand a finished value to the innermost open container. -/
def complete (stack : List Open) (tree : Json) : Option Reading :=
  match stack with
  | [] => some ⟨[], .nothing tree⟩
  | .array items :: outer => some ⟨.array (tree :: items) :: outer, .separator⟩
  | .field members key :: outer =>
      some ⟨.object (Members.put key tree members) :: outer, .separator⟩
  | .object _ :: _ => none

/-- Begin a value with its first token. -/
def beginValue (stack : List Open) : Token → Option Reading
  | .openBracket => some ⟨.array [] :: stack, .firstItem⟩
  | .openBrace => some ⟨.object [] :: stack, .firstKey⟩
  | .null => complete stack .null
  | .bool value => complete stack (.bool value)
  | .integer value => complete stack (.integer value)
  | .float value => complete stack (.float value)
  | .string value => complete stack (.string value)
  | _ => none

/-- Close the innermost open container. -/
def close (stack : List Open) : Token → Option Reading
  | .closeBracket => match stack with
      | .array items :: outer => complete outer (.array items.reverse)
      | _ => none
  | .closeBrace => match stack with
      | .object members :: outer => complete outer (.object members)
      | _ => none
  | _ => none

/-- Go on after a comma. -/
def next (stack : List Open) : Option Reading :=
  match stack with
  | .array _ :: _ => some ⟨stack, .value⟩
  | .object _ :: _ => some ⟨stack, .key⟩
  | _ => none

def step (reading : Reading) (token : Token) : Option Reading :=
  let stack := reading.stack
  match reading.expected, token with
  | .value, _ => beginValue stack token
  | .firstItem, .closeBracket => close stack token
  | .firstItem, _ => beginValue stack token
  | .firstKey, .closeBrace => close stack token
  | .firstKey, .string key => some ⟨stack, .colon key⟩
  | .key, .string key => some ⟨stack, .colon key⟩
  | .colon key, .colon => match stack with
      | .object members :: outer => some ⟨.field members key :: outer, .value⟩
      | _ => none
  | .separator, .comma => next stack
  | .separator, _ => close stack token
  | _, _ => none

end Reading

/-- The tree that a text denotes, if it is JSON and nothing else. -/
def parse? (text : String) : Option Json := do
  let tokens ← Token.ofText? text
  let reading ← tokens.foldlM Reading.step ⟨[], .value⟩
  match reading.expected with
  | .nothing tree => some tree
  | _ => none

end Json

end LocalFirst
