import EnvDiagram.CommandLine
import EnvDiagram.Screen.View

/-!
# The program

Shows the first step of a built-in trace.
-/

namespace EnvDiagram

/-- Prints the first screen of a history. -/
def showFirst (history : History) (title : String) : IO Unit := do
  let viewer := Viewer.ofHistory history .standard title
  for row in (viewer.screen 100 40).rows do
    IO.println row

/-- Loads the trace that is asked for and shows it; the exit code says whether it is
known. -/
def runProgram (args : List String) : IO UInt32 := do
  match CommandLine.start "envdiagram" args with
  | .loaded history message =>
    IO.eprint message
    showFirst history (CommandLine.traceName args)
    return 0
  | .refused message =>
    IO.eprint message
    return 1

end EnvDiagram

/-- The program. -/
def main (args : List String) : IO UInt32 := EnvDiagram.runProgram args
