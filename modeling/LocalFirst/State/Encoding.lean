import LocalFirst.Json.Form
import LocalFirst.State.Documents

/-!
# JSON form of the state

The state, the messages about versions and the reported errors as they are
written to JSON.  Absent values are written as null, the number of commits as
an unsigned integer.
-/

namespace LocalFirst

open JsonForm

instance : JsonForm Document :=
  ⟨Document.toJson, fun tree => some (Document.ofJson tree)⟩

instance : JsonForm Path where
  toJson path := .string path.text
  ofJson? tree := tree.string?.map Path.parse

instance : JsonForm Update where
  toJson update := update.toDocument.toJson
  ofJson? tree := (Update.ofDocument (Document.ofJson tree)).toOption

instance : JsonForm EntityInfo where
  toJson info := .object [
    ("origin", toJson info.origin),
    ("versionId", toJson info.versionId),
    ("commits", toJson info.commits),
    ("head", toJson info.head)]
  ofJson? tree := do
    return ⟨← tree.field? "origin", ← tree.optionalField? "versionId",
      ← tree.field? "commits", ← tree.optionalField? "head"⟩

instance : JsonForm UnreachedCommit where
  toJson commit := .object [
    ("entityName", toJson commit.entityName),
    ("id", toJson commit.id),
    ("commitCount", toJson commit.commitCount)]
  ofJson? tree := do
    return ⟨← tree.field? "entityName", ← tree.field? "id", ← tree.field? "commitCount"⟩

instance : JsonForm NetworkState where
  toJson network := .object [
    ("requests", toJson network.requests),
    ("isOnline", toJson network.isOnline)]
  ofJson? tree := do
    return ⟨← tree.field? "requests", ← tree.field? "isOnline"⟩

instance : JsonForm Session where
  toJson session := .object [
    ("id", toJson session.id),
    ("entityName", toJson session.entityName),
    ("userId", toJson session.userId),
    ("expiredAt", toJson session.expiredAt),
    ("values", toJson session.values)]
  ofJson? tree := do
    return ⟨← tree.field? "id", ← tree.field? "entityName", ← tree.optionalField? "userId",
      ← tree.optionalField? "expiredAt", (← tree.optionalField? "values").getD .null⟩

instance : JsonForm ErrorKind where
  toJson kind := .string kind.name
  ofJson? tree := tree.choice?.bind ErrorKind.ofName?

instance : JsonForm ErrorSite where
  toJson site := .string site.name
  ofJson? tree := tree.choice?.bind ErrorSite.ofName?

instance : JsonForm ReportedError where
  toJson error := .object [
    ("type", toJson error.kind),
    ("at", toJson error.site),
    ("message", toJson error.message)]
  ofJson? tree := do
    return ⟨← tree.field? "type", ← tree.field? "at", ← tree.field? "message"⟩

instance : JsonForm LocalError where
  toJson error := .object [
    ("type", toJson error.kind),
    ("at", toJson error.site),
    ("message", toJson error.message),
    ("actionTag", toJson error.actionTag)]
  ofJson? tree := do
    return ⟨← tree.field? "type", ← tree.field? "at", ← tree.field? "message",
      ← tree.field? "actionTag"⟩

instance : JsonForm LocalState where
  toJson state := .object [
    ("entities", toJson state.entities),
    ("unreachedCommits", toJson state.unreachedCommits),
    ("network", toJson state.network),
    ("session", toJson state.session),
    ("error", toJson state.error)]
  ofJson? tree := do
    return ⟨← tree.field? "entities", ← tree.field? "unreachedCommits",
      ← tree.field? "network", ← tree.optionalField? "session", ← tree.optionalField? "error"⟩

instance : JsonForm VersionDiff where
  toJson diff := .object [
    ("entityName", toJson diff.entityName),
    ("id", toJson diff.id),
    ("versionId", toJson diff.versionId),
    ("prevVersionId", toJson diff.prevVersionId),
    ("operation", toJson diff.operation)]
  ofJson? tree := do
    return ⟨← tree.field? "entityName", ← tree.field? "id", ← tree.field? "versionId",
      ← tree.field? "prevVersionId", ← tree.field? "operation"⟩

instance : JsonForm PushCommand where
  toJson command := .object [
    ("entityName", toJson command.entityName),
    ("id", toJson command.id),
    ("versionId", toJson command.versionId),
    ("operations", toJson command.operations)]
  ofJson? tree := do
    return ⟨← tree.field? "entityName", ← tree.field? "id", ← tree.field? "versionId",
      ← tree.field? "operations"⟩

/-- The document that the JSON form of a value denotes. -/
def JsonForm.toDocument {α : Type} [JsonForm α] (value : α) : Document :=
  Document.ofJson (toJson value)

/-- Read a document as the JSON form of a value. -/
def JsonForm.ofDocument? {α : Type} [JsonForm α] (document : Document) : Option α :=
  ofJson? document.toJson

end LocalFirst
