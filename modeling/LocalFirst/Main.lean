import LocalFirst.Notes.Scenario

/-!
# The note demo

The command line plays one scenario and prints its lines.
-/

open LocalFirst

/-- Play the scenario that the argument names. -/
def main (arguments : List String) : IO UInt32 := do
  match arguments with
  | [name] =>
      match Notes.scenario? name with
      | some script =>
          let (succeeded, lines) := Notes.play script
          lines.forM IO.println
          return if succeeded then 0 else 1
      | none =>
          IO.eprintln ("unknown scenario " ++ name)
          return 2
  | _ =>
      IO.eprintln "one argument is needed: demo, conflict or offline"
      return 2
