import TimePhrase.CommandLine.Outcome

/-!
# The program

Reads the command line and the grammar file, and prints the outcome.
-/

namespace TimePhrase.CommandLine

/-- The content of the file at a path, if it is a readable text. -/
def readContent (path : Text) : IO (Option Text) := do
  try
    let content ← IO.FS.readFile (String.ofList path)
    return some content.toList
  catch _ => return none

/-- Prints an outcome and returns its exit code. -/
def Outcome.print (outcome : Outcome) : IO UInt32 := do
  IO.print (String.ofList outcome.output)
  for complaint in outcome.complaints do
    IO.eprintln (String.ofList complaint)
  return outcome.code.toUInt32

end TimePhrase.CommandLine

open TimePhrase TimePhrase.CommandLine

/-- Runs the program. -/
def main (arguments : List String) : IO UInt32 := do
  match Request.ofArguments (arguments.map String.toList) with
  | .error stop => stop.outcome.print
  | .ok request => (request.outcome (← readContent request.path)).print
