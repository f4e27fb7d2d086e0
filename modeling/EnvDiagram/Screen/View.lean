import EnvDiagram.Screen.DiagramPane
import EnvDiagram.Screen.StatusBar
import EnvDiagram.Viewer

/-!
# The viewer on the terminal

The last row is the status bar, the rows above it show the diagram.
-/

namespace EnvDiagram.Viewer

/-- What the status bar tells of the viewer. -/
def statusBar (v : Viewer Float) : StatusBar where
  message := v.status
  position := v.history.position
  length := v.history.length
  printable := v.printable
  warnings := (v.diagram.map fun d => d.warnings.length).getD 0

/-- The viewer on a terminal of the given size. -/
def screen (v : Viewer Float) (width height : Nat) : Buffer :=
  let paneHeight := height - 1
  let b := Buffer.blank width height
  let b := DiagramPane.render v.scene.config.fontSize v.title v.diagram v.hover
    ⟨0, 0, width, paneHeight⟩ b
  v.statusBar.render ⟨0, paneHeight, width, height - paneHeight⟩ b

end EnvDiagram.Viewer
