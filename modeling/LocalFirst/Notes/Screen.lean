import LocalFirst.Sync.Numbering
import LocalFirst.Sync.World

/-!
# The screen of the note demo

The lines that the demo prints: headings, steps, pushes, and a box for each
client with its status and the fields of its note.  Widths count characters.

A shortened version differs from run to run.  `numberVersions` replaces each of
them by its number, in order of first appearance, so that two screens can be
compared.
-/

namespace LocalFirst

namespace Notes

/-- The entity that the clients share. -/
def noteKey : EntityKey :=
  ⟨"note", "groceries"⟩

/-- A text of at least this width, filled up with spaces behind it. -/
def padRight (width : Nat) (text : String) : String :=
  text ++ String.ofList (List.replicate (width - text.length) ' ')

/-- A text of at least this width, filled up with spaces before it. -/
def padLeft (width : Nat) (text : String) : String :=
  String.ofList (List.replicate (width - text.length) ' ') ++ text

/-- A line of one repeated character. -/
def rule (width : Nat) (char : Char) : String :=
  String.ofList (List.replicate width char)

def header (title : String) : List String :=
  ["", rule 60 '═', "  " ++ title, rule 60 '═']

def heading (title : String) : List String :=
  ["", "▸ " ++ title]

def step (text : String) : List String :=
  ["  • " ++ text]

def describe : PushOutcome → String
  | .clean => "nothing to push"
  | .synced acknowledged => "✓ " ++ toString acknowledged ++ " acknowledged"
  | .queued pending => "⏸ " ++ toString pending ++ " queued"
  | .ignored => "response ignored"
  | .inFlight => "push already in flight"

/-- The line of a push to the server. -/
def pushArrow (name : String) (outcome : PushOutcome) : List String :=
  ["  " ++ name ++ " ──push──▶ server " ++ describe outcome]

/-- The last six characters of a version. -/
def shortVersion (versionId : String) : String :=
  "…" ++ String.ofList (versionId.toList.drop (versionId.length - 6))

def onlineText (online : Bool) : String :=
  if online then "online" else "offline"

/-- One field of a note. -/
def fieldLine (member : String × Json) : String :=
  "  │ " ++ padRight 54 (padRight 8 member.1 ++ " = " ++ member.2.text) ++ " │"

/-- The number of commits of the note that the server has not acknowledged. -/
def pending (state : LocalState) : Nat :=
  match state.find? noteKey.entityName noteKey.id with
  | some info => info.commits.length
  | none => 0

def versionText (state : LocalState) : String :=
  match (state.find? noteKey.entityName noteKey.id).bind EntityInfo.versionId with
  | some versionId => shortVersion versionId
  | none => "-"

/-- The box of a client with the note as its user sees it. -/
def peerBox (name : String) (state : LocalState) (note : Document) : List String :=
  let fields := (note.toJson.members?.getD []).filter (fun member => member.1 != "id")
  ["  ┌" ++ rule 56 '─' ++ "┐",
    "  │ " ++ padRight 30 ("Client: " ++ name) ++ " " ++
      padLeft 7 (onlineText state.network.isOnline) ++ " v" ++
      padRight 7 (versionText state) ++ " " ++ padLeft 2 (toString (pending state)) ++
      " pending │",
    "  ├" ++ rule 56 '─' ++ "┤"] ++
  fields.map fieldLine ++
  ["  └" ++ rule 56 '─' ++ "┘"]

/-- The text that stands for the shortened version at a place. -/
def versionLabel (index : Nat) : List Char :=
  paddedDigits 6 (index + 1)

/-- Number the shortened versions in a text. -/
def numberVersionsIn (numbering : Numbering) : List Char → List Char × Numbering
  | 'v' :: '…' :: rest =>
      let (index, numbering) := numbering.place (String.ofList (rest.take 6))
      let (later, numbering) := numberVersionsIn numbering (rest.drop 6)
      ('v' :: '…' :: versionLabel index ++ later, numbering)
  | char :: rest =>
      let (later, numbering) := numberVersionsIn numbering rest
      (char :: later, numbering)
  | [] => ([], numbering)
  termination_by text => text.length
  decreasing_by
    · simp only [List.length_drop, List.length_cons]
      omega
    · simp

/-- Number the shortened versions on a screen. -/
def numberVersions (numbering : Numbering) : List String → List String
  | [] => []
  | line :: lines =>
      let (chars, numbering) := numberVersionsIn numbering line.toList
      String.ofList chars :: numberVersions numbering lines

def verdict (converged : Bool) : List String :=
  if converged then ["", "  ✓ ALL CLIENTS CONVERGED ON THE SERVER VERSION"]
  else ["", "  ✗ DIVERGENCE DETECTED: clients differ from the server"]

end Notes

end LocalFirst
