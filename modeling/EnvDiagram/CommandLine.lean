import EnvDiagram.Snapshot.Trace

/-!
# The command line

The viewer is started with the name of a built-in trace, or without one for the first
trace. An unknown name is refused with a usage message.
-/

namespace EnvDiagram.CommandLine

/-- The memory that the history of a trace may take: 64 megabytes. -/
def memoryLimit : Nat := 64 * 1024 * 1024

/-- The trace that is asked for. -/
def traceName (args : List String) : String := args.headD "counter"

/-- The lines of the message for an unknown trace. -/
def usage (program name : String) : List String :=
  [ "Error: Unknown trace '" ++ name ++ "'",
    "",
    "Usage: " ++ program ++ " [trace]",
    "",
    "Traces:" ] ++ Trace.names.map fun trace => "  " ++ program ++ " " ++ trace

/-- What a start comes to. -/
inductive Start where
  /-- The history to show, and the message that it was loaded. -/
  | loaded (history : History) (message : String)
  /-- The message why there is nothing to show. -/
  | refused (message : String)

/-- Loads the trace that is asked for. -/
def start (program : String) (args : List String) : Start :=
  let name := traceName args
  match Trace.load name memoryLimit with
  | .ok (some history) =>
    .loaded history ("Loaded '" ++ name ++ "': " ++ toString history.length ++ " steps\n")
  | .ok none => .refused (String.join ((usage program name).map (· ++ "\n")))
  | .error e => .refused ("Error: " ++ e.message ++ "\n")

end EnvDiagram.CommandLine
