import LocalFirst.Sync.Call

/-!
# Traces

The lines by which a trace of a client tells what it asked of the server, what
its store reported and how its pushes ended.
-/

namespace LocalFirst

open JsonForm

/-- The line of an entity. -/
def EntityKey.trace (key : EntityKey) : String :=
  key.entityName ++ " " ++ key.id

/-- The line of a request. -/
def Request.trace : Request → String
  | .get key => "get " ++ key.trace
  | .push request => "push " ++ (toJson request).text
  | .pull key versionId => "pull " ++ key.trace ++ " " ++ versionId
  | .login command => "login " ++ (toJson command).text
  | .logout sessionId => "logout " ++ sessionId
  | .delete key => "delete " ++ key.trace

/-- The line of a push that has ended. -/
def PushOutcome.trace : PushOutcome → String
  | .clean => "clean"
  | .synced acknowledged => "synced " ++ toString acknowledged
  | .queued pending => "queued " ++ toString pending
  | .ignored => "ignored"
  | .inFlight => "inFlight"

/-- The line of a store event. -/
def StoreEvent.trace : StoreEvent → String
  | .changed action => "changed " ++ action
  | .rejected action message => "rejected " ++ action ++ ": " ++ message

/-- The line of a diff. -/
def VersionDiff.trace (diff : VersionDiff) : String :=
  (toJson diff).text

/-- The lines of what there is to read in an inbox. -/
def Inbox.trace {α : Type} (line : α → String) (inbox : Inbox α) : List String :=
  inbox.deliveries.map (fun
    | .lagged count => "lagged " ++ toString count
    | .message content => line content)

end LocalFirst
