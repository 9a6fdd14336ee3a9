import LocalFirst.Json.Basic
import LocalFirst.Keyed

/-!
# Values in JSON

A type with a JSON form can be written as a tree and read back.  Records list
their fields in a fixed order; unknown fields are ignored, and only an optional
field may be missing.
-/

namespace LocalFirst

/-- A type whose values can be written as JSON and read back. -/
class JsonForm (α : Type) where
  toJson : α → Json
  ofJson? : Json → Option α

namespace JsonForm

instance : JsonForm String :=
  ⟨.string, Json.string?⟩

instance : JsonForm Bool :=
  ⟨.bool, Json.bool?⟩

/-- Unsigned words are read from integer literals only. -/
instance : JsonForm UInt64 where
  toJson value := .integer value.toNat
  ofJson?
    | .integer (.ofNat size) =>
        if size < UInt64.size then some (UInt64.ofNat size) else none
    | _ => none

instance {α : Type} [JsonForm α] : JsonForm (List α) where
  toJson values := .array (values.map toJson)
  ofJson?
    | .array items => items.mapM ofJson?
    | _ => none

/-- An absent value is null. -/
instance {α : Type} [JsonForm α] : JsonForm (Option α) where
  toJson
    | some value => toJson value
    | none => .null
  ofJson?
    | .null => some none
    | tree => (ofJson? tree).map some

/-- Maps are written in the order of their names. -/
instance {α : Type} [JsonForm α] : JsonForm (NameMap α) where
  toJson map := .object (map.toList.map (fun named => (named.1, toJson named.2)))
  ofJson?
    | .object members =>
        (members.mapM (fun member => (ofJson? member.2).map (member.1, ·))).map Keyed.ofList
    | _ => none

end JsonForm

namespace Json

/-- A field of an object, read as a value. -/
def field? {α : Type} [JsonForm α] (tree : Json) (key : String) : Option α :=
  (tree.get? key).bind JsonForm.ofJson?

/-- A field that may be missing. -/
def optionalField? {α : Type} [JsonForm α] (tree : Json) (key : String) :
    Option (Option α) :=
  match tree.get? key with
  | some value => JsonForm.ofJson? value
  | none => if tree.members?.isSome then some none else none

/-- The name of a choice without contents: the name alone, or an object that
holds null under it. -/
def choice? : Json → Option String
  | .string name => some name
  | .object [(name, .null)] => some name
  | _ => none

/-- Read an empty object under the name of a choice as null. -/
def settleChoice : Json → Json
  | .object [(name, .object [])] => .object [(name, .null)]
  | tree => tree

end Json

end LocalFirst
