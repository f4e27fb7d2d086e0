import EnvDiagram.Hover
import EnvDiagram.Snapshot.History

/-!
# The viewer

The viewer shows one snapshot of a history as a diagram and changes with every key that
is pressed: stepping lays out another snapshot, the palette switch draws the same layout
again, and the hover moves through the functions of the diagram.
-/

namespace EnvDiagram

/-- A key press. -/
inductive Key where
  | char (c : Char)
  | left
  | right
  | enter
  | backspace
  /-- A key that the viewer does not use. -/
  | other
deriving DecidableEq, Repr

/-- What the viewer does on a key press. -/
inductive Command where
  | quit
  | forward
  | backward
  | switchPalette
  | hoverNext
  | toEnd
  | toStart
deriving DecidableEq, Repr

/-- The command of a key. -/
def Key.command? : Key → Option Command
  | .char 'q' | .char 'Q' => some .quit
  | .right | .char 'l' => some .forward
  | .left | .char 'h' => some .backward
  | .char 'p' => some .switchPalette
  | .char 'f' => some .hoverNext
  | .enter => some .toEnd
  | .backspace => some .toStart
  | _ => none

/-- The state of the viewer. -/
structure Viewer (α : Type) where
  history : History
  scene : Scene α
  /-- The last drawing; none for an empty history. -/
  diagram : Option (Diagram α)
  printable : Bool
  hover : Hover
  title : String
  quit : Bool
  status : String

namespace Viewer

variable {α : Type} [Scalar α]

/-- Lays out and draws the current snapshot. -/
def refresh (v : Viewer α) : Viewer α :=
  match v.history.current? with
  | none => { v with hover := .none, diagram := none }
  | some s =>
    let (diagram, scene) := v.scene.redraw s v.printable
    { v with hover := .none, diagram := some diagram, scene }

/-- A viewer of a history, at the position that the history has. -/
def ofHistory (history : History) (config : Config α) (title : String) : Viewer α :=
  refresh
    { history
      scene := .ofConfig config
      diagram := none
      printable := false
      hover := .none
      title
      quit := false
      status := "Ready!" }

/-- Goes to another position of the history, and says so. -/
def goTo (v : Viewer α) (history : History) (status : String) : Viewer α :=
  { ({ v with history }).refresh with status }

/-- Goes to where a step leads, or says why there is no step. -/
def step (v : Viewer α) (result : Except HistoryError History) (done failed : String) : Viewer α :=
  match result with
  | .ok history => v.goTo history done
  | .error e => { v with status := failed ++ e.message }

/-- The message after a switch of the palette. -/
def modeMessage (printable : Bool) (warnings : List (Warning α)) : String :=
  if printable then
    match warnings.getLast? with
    | none => "Printable mode"
    | some w => "Printable mode: " ++ w.message
  else "Interactive mode"

/-- Switches the palette. The layout stays, so it is only drawn again. -/
def switchPalette (v : Viewer α) : Except LookupError (Viewer α) :=
  match v.diagram with
  | none => .ok v
  | some _ =>
    (v.hover.leave v.scene.layout v.printable).map fun _ =>
      let printable := !v.printable
      let (diagram, scene) := v.scene.draw printable
      { v with
        hover := .none
        printable
        scene
        status := modeMessage printable diagram.warnings
        diagram := some diagram }

omit [Scalar α] in
/-- The message after a move of the hover. -/
def hoverMessage (f : Option (FunctionGlyph α)) : String :=
  match f with
  | none => "No function hovered"
  | some f => "Hovering " ++ f.name

omit [Scalar α] in
/-- Moves the hover to the next function of the diagram. -/
def hoverNext (v : Viewer α) : Except LookupError (Viewer α) :=
  match v.diagram with
  | none => .ok v
  | some diagram =>
    (v.hover.advance diagram v.scene.layout v.scene.config).bind fun hover =>
      match hover.hovered with
      | none => .ok { v with hover, status := hoverMessage (α := α) none }
      | some owner =>
        (v.scene.layout.glyph? owner).map fun f => { v with hover, status := hoverMessage f }

/-- Carries out a command. -/
def run (v : Viewer α) : Command → Except LookupError (Viewer α)
  | .quit => .ok { v with quit := true }
  | .forward => .ok (v.step v.history.forward "Stepped forward" "Cannot step forward: ")
  | .backward => .ok (v.step v.history.backward "Stepped backward" "Cannot step backward: ")
  | .switchPalette => v.switchPalette
  | .hoverNext => v.hoverNext
  | .toEnd => .ok (v.goTo v.history.toEnd "Jumped to end")
  | .toStart => .ok (v.goTo v.history.toStart "Jumped to start")

/-- The viewer after a key press. -/
def press (v : Viewer α) (key : Key) : Except LookupError (Viewer α) :=
  match key.command? with
  | none => .ok v
  | some command => v.run command

end Viewer

end EnvDiagram
