import LocalFirst.State.Encoding
import LocalFirst.Sync.Error

/-!
# Requests and answers

What a client asks of the server, and what the server answers.  Every request
determines the type of its answer.
-/

namespace LocalFirst

/-- What names an entity. -/
structure EntityKey where
  entityName : String
  id : String
  deriving DecidableEq, Inhabited

namespace EntityKey

instance : Ord EntityKey :=
  ⟨compareLex (compareOn EntityKey.entityName) (compareOn EntityKey.id)⟩

instance : Std.TransOrd EntityKey :=
  inferInstanceAs
    (Std.TransCmp (compareLex (compareOn EntityKey.entityName) (compareOn EntityKey.id)))

instance : Std.LawfulEqOrd EntityKey where
  eq_of_compare {left right} equal := by
    obtain ⟨namesEq, idsEq⟩ := Ordering.then_eq_eq.1 equal
    cases left
    cases right
    exact congr (congrArg EntityKey.mk (Std.LawfulEqOrd.eq_of_compare namesEq))
      (Std.LawfulEqOrd.eq_of_compare idsEq)

end EntityKey

/-- An entity as the server holds it. -/
structure Fetched where
  entity : Document
  versionId : String

/-- Commits made on a version. -/
structure PushRequest where
  entityName : String
  id : String
  versionId : Option String
  operations : List Update

structure LoginCommand where
  entityName : String
  userId : String
  password : String
  deriving DecidableEq

structure LoginResponse where
  session : Session
  user : Document
  versionId : String

inductive Request where
  | get (key : EntityKey)
  | push (request : PushRequest)
  | pull (key : EntityKey) (versionId : String)
  | login (command : LoginCommand)
  | logout (sessionId : String)
  | delete (key : EntityKey)

/-- The type of the answer to a request. -/
abbrev Request.Answer : Request → Type
  | .get _ => Fetched
  | .push _ => PushCommand
  | .pull _ _ => PushCommand
  | .login _ => LoginResponse
  | .logout _ => Unit
  | .delete _ => Unit

/-- What comes back for a request. -/
abbrev Request.Response (request : Request) : Type :=
  Except RemoteError request.Answer

open JsonForm

instance : JsonForm Fetched where
  toJson fetched := .object [
    ("entity", toJson fetched.entity),
    ("versionId", toJson fetched.versionId)]
  ofJson? tree := do
    return ⟨← tree.field? "entity", ← tree.field? "versionId"⟩

instance : JsonForm PushRequest where
  toJson request := .object [
    ("entityName", toJson request.entityName),
    ("id", toJson request.id),
    ("versionId", toJson request.versionId),
    ("operations", toJson request.operations)]
  ofJson? tree := do
    return ⟨← tree.field? "entityName", ← tree.field? "id", ← tree.optionalField? "versionId",
      ← tree.field? "operations"⟩

instance : JsonForm LoginCommand where
  toJson command := .object [
    ("entityName", toJson command.entityName),
    ("userId", toJson command.userId),
    ("password", toJson command.password)]
  ofJson? tree := do
    return ⟨← tree.field? "entityName", ← tree.field? "userId", ← tree.field? "password"⟩

instance : JsonForm LoginResponse where
  toJson response := .object [
    ("session", toJson response.session),
    ("user", toJson response.user),
    ("versionId", toJson response.versionId)]
  ofJson? tree := do
    return ⟨← tree.field? "session", ← tree.field? "user", ← tree.field? "versionId"⟩

/-- Read the answer to a request. -/
def Request.readAnswer? : (request : Request) → Json → Option request.Answer
  | .get _, tree => ofJson? tree
  | .push _, tree => ofJson? tree
  | .pull _ _, tree => ofJson? tree
  | .login _, tree => ofJson? tree
  | .logout _, _ => some ()
  | .delete _, _ => some ()

end LocalFirst
