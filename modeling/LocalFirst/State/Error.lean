import LocalFirst.Record

/-!
# Reported errors

Failures that the user is told about have one shape: a category, the side on
which they happened, and a message.  The state keeps the last one, together
with the tag of the action that failed.
-/

namespace LocalFirst

/-- The category of a reported failure. -/
inductive ErrorKind where
  | badRequest
  | unauthorized
  | forbidden
  | notFound
  | internalError
  | networkFailed
  deriving DecidableEq, Repr

/-- The side on which a failure happened. -/
inductive ErrorSite where
  | localSide
  | server
  deriving DecidableEq, Repr

namespace ErrorKind

def all : List ErrorKind :=
  [.badRequest, .unauthorized, .forbidden, .notFound, .internalError, .networkFailed]

def name : ErrorKind → String
  | .badRequest => "BadRequest"
  | .unauthorized => "Unauthorized"
  | .forbidden => "Forbidden"
  | .notFound => "NotFound"
  | .internalError => "InternalError"
  | .networkFailed => "NetworkFailed"

def ofName? (name : String) : Option ErrorKind :=
  all.find? (fun kind => kind.name == name)

end ErrorKind

namespace ErrorSite

/-- The name of a site in documents. -/
def name : ErrorSite → String
  | .localSide => "local"
  | .server => "server"

/-- The name of a site in messages. -/
def label : ErrorSite → String
  | .localSide => "Local"
  | .server => "Server"

def ofName? : String → Option ErrorSite
  | "local" => some .localSide
  | "server" => some .server
  | _ => none

end ErrorSite

/-- A failure in the shape in which it is reported. -/
structure ReportedError where
  kind : ErrorKind
  site : ErrorSite
  message : String
  deriving DecidableEq

namespace ReportedError

/-- Any failure on this side that has no category of its own. -/
def internal (message : String) : ReportedError :=
  ⟨.internalError, .localSide, message⟩

/-- The text shown to the user. -/
def display (error : ReportedError) : String :=
  error.kind.name ++ " (" ++ error.site.label ++ "): " ++ error.message

end ReportedError

/-- The error that the state keeps. -/
structure LocalError where
  kind : ErrorKind
  site : ErrorSite
  message : String
  actionTag : String
  deriving DecidableEq

namespace LocalError

/-- A reported failure of the action with a tag. -/
def ofReported (error : ReportedError) (actionTag : String) : LocalError :=
  ⟨error.kind, error.site, error.message, actionTag⟩

def toDocument (error : LocalError) : Document :=
  .object [
    ("type", .string error.kind.name),
    ("at", .string error.site.name),
    ("message", .string error.message),
    ("actionTag", .string error.actionTag)]

def ofDocument (document : Document) : Except UpdateError LocalError := do
  let record ← Record.ofDocument "LocalError" document
  let kindName ← record.string "type"
  let siteName ← record.string "at"
  let some kind := ErrorKind.ofName? kindName
    | throw (.restore "LocalError" (.unknownName "error type" kindName))
  let some site := ErrorSite.ofName? siteName
    | throw (.restore "LocalError" (.unknownName "error site" siteName))
  return ⟨kind, site, ← record.string "message", ← record.string "actionTag"⟩

instance : DocumentForm LocalError :=
  ⟨toDocument, ofDocument⟩

end LocalError

/-- Why a command on the state fails. -/
inductive StateError where
  | notFound (entityName id : String)
  | missingId (entityName : String)
  | update (error : UpdateError)

namespace StateError

def message : StateError → String
  | .notFound entityName id =>
      "no entity found: entityName \"" ++ entityName ++ "\", id \"" ++ id ++ "\""
  | .missingId entityName => entityName ++ " entity has no string \"id\" field"
  | .update error => error.message

def toReported (error : StateError) : ReportedError :=
  .internal error.message

end StateError

end LocalFirst
