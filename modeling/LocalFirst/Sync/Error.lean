import LocalFirst.State.Error

/-!
# Errors of a client

A request fails on the way or is refused by the server; a call of a client
fails with one of these, with an error of the state, or because the stream of
diffs has ended.
-/

namespace LocalFirst

/-- Why a request has no answer. -/
inductive RemoteError where
  | network (message : String)
  | rejected (error : ReportedError)
  deriving DecidableEq

namespace RemoteError

/-- A refusal by the server. -/
def refuse (kind : ErrorKind) (message : String) : RemoteError :=
  .rejected ⟨kind, .server, message⟩

def isNetwork : RemoteError → Bool
  | .network _ => true
  | .rejected _ => false

def message : RemoteError → String
  | .network message => "network failure: " ++ message
  | .rejected error => "rejected by server: " ++ error.display

def toReported : RemoteError → ReportedError
  | .network message => ⟨.networkFailed, .localSide, message⟩
  | .rejected error => error

end RemoteError

/-- Why a call of a client fails. -/
inductive ClientError where
  | state (error : StateError)
  | remote (error : RemoteError)
  | closed

namespace ClientError

def message : ClientError → String
  | .state error => error.message
  | .remote error => error.message
  | .closed => "version diff stream closed"

def toReported : ClientError → ReportedError
  | .state error => error.toReported
  | .remote error => error.toReported
  | .closed => .internal ClientError.closed.message

end ClientError

end LocalFirst
